/-
The order of numbers of both kinds. Two integers are compared exactly, and as soon as one of the
two is a double, both are, so an integer may be rounded first. Therefore beyond `2^53` to be
equal is not transitive: an integer and its neighbour may both be equal to a double. But
rounding keeps the order, so to be strictly below is transitive for any mixture.

Among numbers that are not rounded the order is that of what they stand for (`Reading`):
rational numbers between the infinities, a negative zero right below zero, and NaN last.
-/
import TagTemplate.Number.Basic
import TagTemplate.Proofs.Double.Conversion

namespace TagTemplate

/-! ## What numbers stand for -/

/-- What a number stands for. -/
inductive Reading where
  | negativeInfinity
  /-- A rational number; only zero may be marked as negative. -/
  | finite (x : ℚ) (negativeZero : Bool)
  | infinity
  | nan

/-- The order of readings. -/
def Reading.Below : Reading → Reading → Prop
  | _, negativeInfinity => False
  | negativeInfinity, _ => True
  | nan, _ => False
  | _, nan => True
  | infinity, _ => False
  | _, infinity => True
  | finite x negative, finite y negative' => x < y ∨ x = y ∧ negative = true ∧ negative' = false

namespace Reading

theorem not_below_self (a : Reading) : ¬a.Below a := by
  cases a <;> simp [Below]

theorem below_trichotomy (a b : Reading) : a.Below b ∨ a = b ∨ b.Below a := by
  cases a <;> cases b <;> simp only [Below, true_or, or_true, reduceCtorEq]
  case finite.finite x negative y negative' =>
    rcases lt_trichotomy x y with h | rfl | h
    · exact .inl (.inl h)
    · cases negative <;> cases negative' <;> simp
    · exact .inr (.inr (.inl h))

end Reading

/-- What a double stands for: a finite one is its units, each `2^-1074`. -/
def Double.reading : Double → Reading
  | nan => .nan
  | ranked negative rank _ =>
    if rank = infinityRank then if negative then .negativeInfinity else .infinity
    else .finite (signedUnits negative rank / one) (negative && rank = 0)

def Number.reading : Number → Reading
  | integer n => .finite n.toInt false
  | double x => x.reading

/-- The number that is read, whatever the sign of a zero. The infinities and NaN are none. -/
def Reading.value? : Reading → Option ℚ
  | finite x _ => some x
  | _ => none

/-! ## Doubles -/

namespace Double

/-- Where a double stands among all doubles, with NaN last. -/
def position : Double → Int
  | nan => infinityRank + 1
  | ranked negative rank _ => if negative then -rank - 1 else rank

section Ranked

variable {n m : Bool} {r s : Nat}

theorem signedUnits_lt_iff : signedUnits n r < signedUnits m s ↔ place n r < place m s := by
  have hr : units r = 0 ↔ r = 0 := units_strictMono.injective.eq_iff' units_zero
  have hs : units s = 0 ↔ s = 0 := units_strictMono.injective.eq_iff' units_zero
  have hlt : units r < units s ↔ r < s := units_strictMono.lt_iff_lt
  have hgt : units s < units r ↔ s < r := units_strictMono.lt_iff_lt
  cases n <;> cases m <;>
    simp only [signedUnits, place, if_true, if_false, Bool.false_eq_true] <;> omega

theorem signedUnits_eq_iff : signedUnits n r = signedUnits m s ↔ place n r = place m s := by
  have hlt := signedUnits_lt_iff (n := n) (r := r) (m := m) (s := s)
  have hgt := signedUnits_lt_iff (n := m) (r := s) (m := n) (s := r)
  omega

variable (hr : r ≤ infinityRank) (hs : s ≤ infinityRank)

theorem position_ranked_lt_iff : (ranked n r hr).position < (ranked m s hs).position ↔
    place n r < place m s ∨ place n r = place m s ∧ n = true ∧ m = false := by
  cases n <;> cases m <;> simp [position, place] <;> omega

theorem position_ranked_eq_iff : (ranked n r hr).position = (ranked m s hs).position ↔
    place n r = place m s ∧ n = m := by
  cases n <;> cases m <;> simp [position, place] <;> omega

end Ranked

theorem position_lt_nan {n : Bool} {r : Nat} (hr : r ≤ infinityRank) :
    (ranked n r hr).position < nan.position := by
  simp only [position]
  split <;> omega

theorem compareDoubles_eq (x y : Double) :
    Number.compareDoubles x y = compare x.position y.position := by
  symm
  match x, y with
  | nan, nan => exact Int.compare_eq_eq.2 rfl
  | nan, ranked m s hs => exact Int.compare_eq_gt.2 (position_lt_nan hs)
  | ranked n r hr, nan => exact Int.compare_eq_lt.2 (position_lt_nan hr)
  | ranked n r hr, ranked m s hs =>
    have hlt := position_ranked_lt_iff (n := n) (m := m) hr hs
    have hgt := position_ranked_lt_iff (n := m) (m := n) hs hr
    have heq := position_ranked_eq_iff (n := n) (m := m) hr hs
    simp only [Number.compareDoubles, lt, decide_eq_true_eq, isNaN, Bool.or_self,
      Bool.false_eq_true,
      if_false, isNegative]
    split
    · exact Int.compare_eq_lt.2 (hlt.2 (.inl ‹_›))
    split
    · exact Int.compare_eq_gt.2 (hgt.2 (.inl ‹_›))
    · have hplace : place n r = place m s := by omega
      cases n <;> cases m
      · exact Int.compare_eq_eq.2 (heq.2 ⟨hplace, rfl⟩)
      · exact Int.compare_eq_gt.2 (hgt.2 (.inr ⟨hplace.symm, rfl, rfl⟩))
      · exact Int.compare_eq_lt.2 (hlt.2 (.inr ⟨hplace, rfl, rfl⟩))
      · exact Int.compare_eq_eq.2 (heq.2 ⟨hplace, rfl⟩)

section Finite

variable {n m : Bool} {r s : Nat}

theorem reading_of_lt (bounded : r ≤ infinityRank) (h : r < infinityRank) :
    (ranked n r bounded).reading = .finite (signedUnits n r / one) (n && r = 0) :=
  if_neg h.ne

theorem reading_infinite (bounded : infinityRank ≤ infinityRank) :
    (ranked n infinityRank bounded).reading = if n then .negativeInfinity else .infinity := by
  rw [reading, if_pos rfl]

theorem value_lt_iff :
    (signedUnits n r / one : ℚ) < signedUnits m s / one ↔ place n r < place m s := by
  rw [div_lt_div_iff_of_pos_right (Nat.cast_pos.2 one_pos), Int.cast_lt, signedUnits_lt_iff]

theorem value_eq_iff :
    (signedUnits n r / one : ℚ) = signedUnits m s / one ↔ place n r = place m s := by
  rw [div_left_inj' (Nat.cast_ne_zero.2 one_pos.ne'), Int.cast_inj, signedUnits_eq_iff]

end Finite

/-- Positions and readings are in the same order. -/
theorem position_lt_iff {x y : Double} : x.position < y.position ↔ x.reading.Below y.reading := by
  match x, y with
  | nan, nan => simp [reading, Reading.Below]
  | nan, ranked m s hs =>
    have hlt := position_lt_nan (n := m) hs
    refine ⟨fun h => absurd h (Int.not_lt.2 hlt.le), fun h => ?_⟩
    simp only [reading] at h
    split at h
    · cases m <;> exact h.elim
    · exact h.elim
  | ranked n r hr, nan =>
    refine ⟨fun _ => ?_, fun _ => position_lt_nan hr⟩
    simp only [reading]
    split
    · cases n <;> trivial
    · trivial
  | ranked n r hr, ranked m s hs =>
    rw [position_ranked_lt_iff]
    rcases hr.lt_or_eq with hr' | rfl <;> rcases hs.lt_or_eq with hs' | rfl
    · rw [reading_of_lt hr hr', reading_of_lt hs hs', Reading.Below, value_lt_iff, value_eq_iff]
      cases n <;> cases m <;> simp [place] <;> omega
    · rw [reading_of_lt hr hr', reading_infinite]
      generalize (signedUnits n r / one : ℚ) = x
      cases n <;> cases m <;> simp [Reading.Below, place] <;> omega
    · rw [reading_of_lt hs hs', reading_infinite]
      generalize (signedUnits m s / one : ℚ) = y
      cases n <;> cases m <;> simp [Reading.Below, place] <;> omega
    · rw [reading_infinite, reading_infinite]
      cases n <;> cases m <;> simp [Reading.Below, place]

/-! ## Integers made doubles -/

theorem position_ofInt (n : Int) : (ofInt n).position =
    if n < 0 then -(nearestRank (n.natAbs * one) 1 : Int) - 1
    else nearestRank (n.natAbs * one) 1 := by
  have hbounded : nearestRank (n.natAbs * one) 1 ≤ infinityRank := Nat.min_le_right ..
  simp only [ofInt_eq, ofRank, position, Nat.min_eq_left hbounded, decide_eq_true_eq]

/-- **The conversion of integers keeps the order.** -/
theorem position_ofInt_mono {m n : Int} (h : m ≤ n) : (ofInt m).position ≤ (ofInt n).position := by
  rw [position_ofInt, position_ofInt]
  rcases Int.lt_or_le n 0 with hn | hn
  · have hm : m < 0 := Int.lt_of_le_of_lt h hn
    have hrank := nearestRank_mono (Nat.mul_le_mul_right one (show n.natAbs ≤ m.natAbs by omega))
    rw [if_pos hm, if_pos hn]
    omega
  · rw [if_neg (Int.not_lt.2 hn)]
    split
    · omega
    · have hrank := nearestRank_mono (Nat.mul_le_mul_right one (show m.natAbs ≤ n.natAbs by omega))
      exact_mod_cast hrank

theorem lt_units_infinityRank {m k s : Nat} (hm : m ≤ 2 * binade) (hs : s = 2046) (hk : k + 1 < s) :
    m * 2 ^ k < units infinityRank := by
  have hsplit : infinityRank = s * binade + binade := by subst hs; rfl
  rw [hsplit, units_step s (Nat.le_refl _) (by decide)]
  calc m * 2 ^ k ≤ 2 * binade * 2 ^ k := Nat.mul_le_mul_right _ hm
    _ = binade * 2 ^ (k + 1) := by rw [Nat.pow_succ]; ring
    _ < binade * 2 ^ s :=
      Nat.mul_lt_mul_of_pos_left (Nat.pow_lt_pow_right (by decide) hk) (by decide)

/-- **Up to `2^53` the conversion is exact.** -/
theorem reading_ofInt {n : Int} (h : n.natAbs ≤ 2 * binade) :
    (ofInt n).reading = .finite n false := by
  obtain ⟨k, hk⟩ : ∃ k, k = 1074 := ⟨_, rfl⟩
  have hone : one = 2 ^ k := one_eq_pow hk
  obtain ⟨hunits, hfinite⟩ :=
    units_nearestRank (s := k) h (lt_units_infinityRank (s := 2046) h rfl (by omega))
  rw [← hone] at hunits hfinite
  rw [ofInt_eq, ofRank, reading_of_lt _ (lt_of_le_of_lt (Nat.min_le_left ..) hfinite),
    Nat.min_eq_left hfinite.le]
  have hvalue : signedUnits (n < 0) (nearestRank (n.natAbs * one) 1) = n * one := by
    simp only [signedUnits, hunits, decide_eq_true_eq]
    split
    · rw [Nat.cast_mul, Int.ofNat_natAbs_of_nonpos (by omega), Int.neg_mul, Int.neg_neg]
    · rw [Nat.cast_mul, Int.natAbs_of_nonneg (by omega)]
  have hzero : (decide (n < 0) && decide (nearestRank (n.natAbs * one) 1 = 0)) = false := by
    rw [Bool.and_eq_false_iff, decide_eq_false_iff_not, decide_eq_false_iff_not]
    refine or_iff_not_imp_left.2 fun hneg hrank => ?_
    rw [hrank, units_zero] at hunits
    rcases Nat.mul_eq_zero.1 hunits.symm with h | h
    · omega
    · exact one_pos.ne' h
  rw [hvalue, hzero, Int.cast_mul, Int.cast_natCast,
    mul_div_cancel_right₀ _ (Nat.cast_ne_zero.2 one_pos.ne')]

theorem position_ofInt_lt_iff {m n : Int} (hm : m.natAbs ≤ 2 * binade)
    (hn : n.natAbs ≤ 2 * binade) :
    (ofInt m).position < (ofInt n).position ↔ m < n := by
  rw [position_lt_iff, reading_ofInt hm, reading_ofInt hn]
  simp [Reading.Below]

theorem value?_eq_of_sameNumber {x y : Double} (h : x.sameNumber y = true) :
    x.reading.value? = y.reading.value? := by
  rcases x with _ | ⟨n, r, hr⟩
  · cases h
  rcases y with _ | ⟨m, s, hs⟩
  · cases h
  have hplace : place n r = place m s := by simpa [sameNumber] using h
  have hrank : r = s := by
    unfold place at hplace
    split at hplace <;> split at hplace <;> omega
  subst hrank
  rcases Nat.lt_or_eq_of_le hr with hlt | rfl
  · rw [reading_of_lt hr hlt, reading_of_lt hs hlt, Reading.value?, Reading.value?,
      signedUnits_eq_iff.2 hplace]
  · rw [reading_infinite, reading_infinite]
    cases n <;> cases m <;> rfl

/-- An integer that a double stands for is converted to this double. -/
theorem sameNumber_ofInt {z : Double} {n : Int} (h : z.reading.value? = some (n : ℚ)) :
    (ofInt n).sameNumber z = true := by
  rcases z with _ | ⟨negative, r, hr⟩
  · cases h
  rcases Nat.lt_or_eq_of_le hr with hlt | rfl
  · rw [reading_of_lt hr hlt, Reading.value?, Option.some.injEq,
      div_eq_iff (Nat.cast_ne_zero.2 one_pos.ne')] at h
    have hsigned : signedUnits negative r = n * one := by exact_mod_cast h
    have hunits : units r = n.natAbs * one := by
      have hnatAbs : (signedUnits negative r).natAbs = units r := by
        rw [signedUnits]
        split <;> simp
      rw [← hnatAbs, hsigned, Int.natAbs_mul, Int.natAbs_natCast]
    have hsame : signedUnits (decide (n < 0)) r = signedUnits negative r := by
      rw [hsigned, signedUnits, hunits, Nat.cast_mul]
      split
      · next hneg =>
        have hnatAbs : (n.natAbs : Int) = -n :=
          Int.ofNat_natAbs_of_nonpos (of_decide_eq_true hneg).le
        rw [hnatAbs, neg_mul, neg_neg]
      · next hneg =>
        rw [Int.natAbs_of_nonneg (not_lt.1 (of_decide_eq_false (Bool.eq_false_iff.2 hneg)))]
    rw [ofInt_eq, ← hunits, nearestRank_units hr, ofRank, sameNumber,
      Nat.min_eq_left hr, beq_iff_eq]
    exact signedUnits_eq_iff.1 hsame
  · rw [reading_infinite] at h
    cases negative <;> cases h

end Double

/-! ## Numbers of both kinds -/

namespace Number

/-- Where a number stands among the doubles once it is made one. -/
def position (v : Number) : Int := v.toDouble.position

theorem order_integers (m n : Int64) :
    (integer m).order (integer n) = compare m.toInt n.toInt := rfl

theorem double_or_integers (a b : Number) :
    (a.isDouble ∨ b.isDouble) ∨ ∃ m n, a = integer m ∧ b = integer n := by
  match a, b with
  | integer m, integer n => exact .inr ⟨m, n, rfl, rfl⟩
  | double x, _ => exact .inl (.inl rfl)
  | _, double x => exact .inl (.inr rfl)

/-- As soon as one of the two is a double, both are. -/
theorem order_eq_compare {a b : Number} (h : a.isDouble ∨ b.isDouble) :
    a.order b = compare a.position b.position := by
  cases a <;> cases b
  · simp [isDouble] at h
  all_goals exact Double.compareDoubles_eq ..

/-- Whichever comparison is taken, it does not go against the positions. -/
theorem position_le_of_order_lt {a b : Number} (h : a.order b = .lt) : a.position ≤ b.position := by
  rcases double_or_integers a b with hd | ⟨m, n, rfl, rfl⟩
  · rw [order_eq_compare hd, Int.compare_eq_lt] at h
    exact h.le
  · rw [order_integers, Int.compare_eq_lt] at h
    exact Double.position_ofInt_mono h.le

theorem order_self (a : Number) : a.order a = .eq := by
  cases a
  · exact Int.compare_eq_eq.2 rfl
  · exact (Double.compareDoubles_eq ..).trans (Int.compare_eq_eq.2 rfl)

theorem order_swap (a b : Number) : a.order b = (b.order a).swap := by
  rcases double_or_integers a b with hd | ⟨m, n, rfl, rfl⟩
  · rw [order_eq_compare hd, order_eq_compare hd.symm, Int.compare_swap]
  · rw [order_integers, order_integers, Int.compare_swap]

/-- **To be strictly below is transitive** for any mixture. Positions that were only rounded
together cannot hide it: where a double is involved, one of the two steps is one of positions. -/
theorem order_lt_trans {a b c : Number} (hab : a.order b = .lt) (hbc : b.order c = .lt) :
    a.order c = .lt := by
  rcases double_or_integers a c with hd | ⟨l, n, rfl, rfl⟩
  · rw [order_eq_compare hd, Int.compare_eq_lt]
    have hle := position_le_of_order_lt hab
    have hle' := position_le_of_order_lt hbc
    rcases hd with ha | hc
    · rw [order_eq_compare (.inl ha), Int.compare_eq_lt] at hab
      exact hab.trans_le hle'
    · rw [order_eq_compare (.inr hc), Int.compare_eq_lt] at hbc
      exact hle.trans_lt hbc
  · cases b with
    | integer m =>
      rw [order_integers, Int.compare_eq_lt] at *
      exact hab.trans hbc
    | double x =>
      rw [order_eq_compare (.inr rfl), Int.compare_eq_lt] at hab
      rw [order_eq_compare (.inl rfl), Int.compare_eq_lt] at hbc
      rw [order_integers, Int.compare_eq_lt]
      by_contra hge
      have hle := Double.position_ofInt_mono (Int.not_lt.1 hge)
      exact (hab.trans hbc).not_ge hle

/-! ## Numbers that are not rounded -/

/-- The conversion to a double does not round. -/
def IsConvertible : Number → Prop
  | integer n => n.toInt.natAbs ≤ 2 ^ 53
  | double _ => True

/-- Numbers that are compared without rounding: they are all integers, or each of them is a double
or an integer that has one. -/
def AreExact (vs : List Number) : Prop :=
  (∀ v ∈ vs, v.isDouble = false) ∨ ∀ v ∈ vs, v.IsConvertible

instance (vs : List Number) : Decidable (AreExact vs) :=
  have : DecidablePred IsConvertible
    | integer n => inferInstanceAs (Decidable (n.toInt.natAbs ≤ 2 ^ 53))
    | double _ => inferInstanceAs (Decidable True)
  inferInstanceAs (Decidable (_ ∨ _))

theorem AreExact.mono {vs ws : List Number} (h : AreExact vs) (hsub : ws ⊆ vs) : AreExact ws :=
  h.imp (fun h v hv => h v (hsub hv)) fun h v hv => h v (hsub hv)

theorem reading_toDouble {v : Number} (h : v.IsConvertible) : v.toDouble.reading = v.reading := by
  cases v with
  | integer n => exact Double.reading_ofInt h
  | double x => rfl

theorem order_of_convertible {a b : Number} (ha : a.IsConvertible) (hb : b.IsConvertible) :
    a.order b = compare a.position b.position := by
  rcases double_or_integers a b with hd | ⟨m, n, rfl, rfl⟩
  · exact order_eq_compare hd
  · have hlt := Double.position_ofInt_lt_iff ha hb
    have hgt := Double.position_ofInt_lt_iff hb ha
    rw [order_integers]
    rcases lt_trichotomy m.toInt n.toInt with h | h | h
    · exact (Int.compare_eq_lt.2 h).trans (Int.compare_eq_lt.2 (hlt.2 h)).symm
    · exact (Int.compare_eq_eq.2 h).trans
        (Int.compare_eq_eq.2 (congrArg (fun i => (Double.ofInt i).position) h)).symm
    · exact (Int.compare_eq_gt.2 h).trans (Int.compare_eq_gt.2 (hgt.2 h)).symm

/-- **Numbers that are not rounded are compared by one measure**, so they are in order as integers
are. -/
theorem AreExact.exists_measure {vs : List Number} (h : AreExact vs) :
    ∃ measure : Number → Int, ∀ a ∈ vs, ∀ b ∈ vs, a.order b = compare (measure a) (measure b) := by
  rcases h with h | h
  · refine ⟨fun | integer n => n.toInt | double _ => 0, fun a ha b hb => ?_⟩
    match a, b, h a ha, h b hb with
    | integer m, integer n, _, _ => rfl
  · exact ⟨position, fun a ha b hb => order_of_convertible (h a ha) (h b hb)⟩

/-- The order of two numbers that are not rounded is that of what they stand for. -/
theorem order_lt_iff {a b : Number} (h : AreExact [a, b]) :
    a.order b = .lt ↔ a.reading.Below b.reading := by
  rcases h with h | h
  · match a, b, h a (by simp), h b (by simp) with
    | integer m, integer n, _, _ =>
      rw [order_integers, Int.compare_eq_lt]
      simp [reading, Reading.Below]
  · have ha := h a (by simp)
    have hb := h b (by simp)
    rw [order_of_convertible ha hb, Int.compare_eq_lt, position, position, Double.position_lt_iff,
      reading_toDouble ha, reading_toDouble hb]

theorem order_eq_iff {a b : Number} (h : AreExact [a, b]) :
    a.order b = .eq ↔ a.reading = b.reading := by
  have hlt := order_lt_iff h
  have hgt := order_lt_iff (h.mono (List.Perm.swap a b []).subset)
  constructor
  · intro heq
    rcases Reading.below_trichotomy a.reading b.reading with hbelow | hsame | habove
    · rw [← hlt, heq] at hbelow
      cases hbelow
    · exact hsame
    · rw [← hgt, order_swap, heq] at habove
      cases habove
  · intro hsame
    rw [hsame] at hlt
    rw [hsame, order_swap] at hgt
    cases hord : a.order b with
    | lt => exact (Reading.not_below_self _ (hlt.1 hord)).elim
    | eq => rfl
    | gt => exact (Reading.not_below_self _ (hgt.1 (congrArg Ordering.swap hord))).elim

/-! ## The laws of the order -/

/-- **The order of numbers.** Each number is equal to itself, turning a comparison around turns its
result around, and to be strictly below is transitive, for any mixture of integers and doubles.
Numbers that are not rounded are moreover in a total preorder, in which equality is transitive and
respects the order, and which is the order of what they stand for. -/
theorem order_laws :
    (∀ a : Number, a.order a = .eq) ∧
    (∀ a b : Number, a.order b = (b.order a).swap) ∧
    (∀ a b c : Number, a.order b = .lt → b.order c = .lt → a.order c = .lt) ∧
    (∀ a b c : Number, AreExact [a, b, c] →
      (a.order b ≠ .gt → b.order c ≠ .gt → a.order c ≠ .gt) ∧
      (a.order b = .eq → b.order c = .eq → a.order c = .eq) ∧
      (a.order b = .eq → a.order c = b.order c ∧ c.order a = c.order b)) ∧
    ∀ a b : Number, AreExact [a, b] →
      (a.order b = .lt ↔ a.reading.Below b.reading) ∧
        (a.order b = .eq ↔ a.reading = b.reading) := by
  refine ⟨order_self, order_swap, fun _ _ _ => order_lt_trans, fun a b c h => ?_,
    fun _ _ h => ⟨order_lt_iff h, order_eq_iff h⟩⟩
  obtain ⟨measure, hmeasure⟩ := h.exists_measure
  rw [hmeasure a (by simp) b (by simp), hmeasure b (by simp) c (by simp),
    hmeasure a (by simp) c (by simp), hmeasure c (by simp) a (by simp),
      hmeasure c (by simp) b (by simp)]
  simp only [ne_eq, Int.compare_eq_gt, Int.compare_eq_eq]
  refine ⟨fun hab hbc => ?_, fun hab hbc => hab.trans hbc, fun hab => ?_⟩
  · omega
  · rw [hab]
    exact ⟨rfl, rfl⟩

/-- Zeros, an infinity and NaN in their order. -/
theorem order_laws_zeros :
    AreExact [integer 0, double (Double.ofRank false 0), double (Double.ofRank true 0)] ∧
    (double (Double.ofRank true 0)).order (integer 0) = .lt ∧
    (integer 0).order (double (Double.ofRank false 0)) = .eq ∧
    (double (Double.ofRank true 0)).order (double (Double.ofRank false 0)) = .lt ∧
    (double (Double.ofRank true 0)).order (double .nan) = .lt ∧
    (double (Double.infinity false)).order (integer 0) = .gt := by
  obtain ⟨_, hswap, htrans, hpreorder, hreading⟩ := order_laws
  have hzero (negative : Bool) : (Double.ofRank negative 0).reading = .finite 0 negative := by
    have hunits : Double.signedUnits negative 0 = 0 := by cases negative <;> rfl
    rw [Double.ofRank, Double.reading_of_lt _ (by decide), Nat.zero_min, hunits,
      Int.cast_zero, zero_div,
      decide_eq_true rfl, Bool.and_true]
  have hinteger : (integer 0).reading = .finite 0 false := by simp [reading]
  have hbelow : (double (Double.ofRank true 0)).order (integer 0) = .lt := by
    refine (hreading _ _ (by decide)).1.2 ?_
    rw [hinteger, reading, hzero]
    exact .inr ⟨rfl, rfl, rfl⟩
  have hequal : (integer 0).order (double (Double.ofRank false 0)) = .eq := by
    refine (hreading _ _ (by decide)).2.2 ?_
    rw [hinteger, reading, hzero]
  refine ⟨by decide, hbelow, hequal, ?_, ?_, ?_⟩
  · rw [← hbelow]
    exact ((hpreorder _ _ _ (by decide)).2.2 hequal).2.symm
  · refine htrans _ _ _ hbelow ((hreading _ _ (by decide)).1.2 ?_)
    simp [reading, Double.reading, Reading.Below]
  · rw [hswap, (hreading _ _ (by decide)).1.2 ?_, Ordering.swap_lt]
    simp [reading, Double.reading, Double.infinity, Reading.Below]

/-- Beyond `2^53` to be equal is not transitive: the integer next to it is converted to it as
well. -/
example :
    (integer 9007199254740993).order (double (Double.ofInt 9007199254740992)) = .eq ∧
    (double (Double.ofInt 9007199254740992)).order (integer 9007199254740992) = .eq ∧
    (integer 9007199254740993).order (integer 9007199254740992) = .gt := by
  decide +kernel

end Number

end TagTemplate
