/-
Loops whose start, stop and step are integers of 64 bits: how many passes they make, with
which values, and which of them end.

Nothing guards such a loop against a step of zero or a value that wraps around. Its variable
walks around the circle of all integers of 64 bits in equal steps, and what it can come to
are exactly the integers that differ from the start by a multiple of the greatest common
divisor of the step and the circle. So a loop ends if there is one of these beyond the stop,
however often the variable has to go around before.
-/
import Mathlib.Data.Int.GCD
import Mathlib.Data.Int.ModEq
import TagTemplate.Proofs.Engine.Counting
import TagTemplate.Proofs.Engine.Evaluation

namespace TagTemplate

/-! ## A walk around the circle -/

namespace Number

/-- The value of a loop variable after so many steps, wrapped around once. -/
def lap (start step : Int64) (k : Nat) : Int64 := wrap (start.toInt + k * step.toInt)

/-- The values of a loop variable in the first passes. -/
def laps (start step : Int64) (count : Nat) : List Number :=
  (List.range count).map fun k => integer (lap start step k)

/-- The value is past the stop after `count` steps, and not before. -/
structure Lasts (start stop step : Int64) (count : Nat) : Prop where
  past : stop < lap start step count
  before : ∀ k < count, lap start step k ≤ stop

variable {start stop step : Int64}

theorem lap_zero (start step : Int64) : lap start step 0 = start := by
  simp [lap, wrap]

theorem lap_succ (start step : Int64) (k : Nat) :
    lap start step (k + 1) = lap start step k + step := by
  have hsum : start.toInt + ((k + 1 : Nat) : Int) * step.toInt =
      start.toInt + k * step.toInt + step.toInt := by
    push_cast
    ring
  rw [lap, wrap, hsum, Int64.ofInt_add, Int64.ofInt_toInt]
  rfl

/-- To wrap around after each step or once at the end is the same. -/
theorem counted_integer (start step : Int64) (k : Nat) :
    (integer start).counted (integer step) k = integer (lap start step k) := by
  induction k with
  | zero => rw [counted_zero, lap_zero]
  | succ k ih =>
    rw [counted, Function.iterate_succ_apply', ← counted, ih, lap_succ]
    rfl

/-- The test of the loop: whether the value is past the stop. -/
theorem order_counted_eq_gt_iff (start stop step : Int64) (k : Nat) :
    ((integer start).counted (integer step) k).order (integer stop) = .gt ↔
      stop < lap start step k := by
  rw [counted_integer, order, Int.compare_eq_gt, Int64.lt_iff_toInt_lt]

theorem order_counted_ne_gt {k : Nat} (h : lap start step k ≤ stop) :
    ((integer start).counted (integer step) k).order (integer stop) ≠ .gt := by
  rw [Ne, order_counted_eq_gt_iff]
  exact Int64.not_lt.2 h

theorem map_counted_integer (start step : Int64) (count : Nat) :
    (List.range count).map ((integer start).counted (integer step)) = laps start step count :=
  List.map_congr_left fun k _ => counted_integer start step k

/-- Steps of one length around a circle come to the places whose distance from the start
their greatest common divisor with the circle divides. -/
theorem exists_modEq_add_mul_iff (s t x : Int) {m : Nat} (hm : 0 < m) :
    (∃ k : Nat, x ≡ s + k * t [ZMOD m]) ↔ x ≡ s [ZMOD Int.gcd t m] := by
  constructor
  · rintro ⟨k, hk⟩
    have hstep : k * t ≡ 0 [ZMOD Int.gcd t m] :=
      (Int.modEq_zero_iff_dvd.2 (Int.gcd_dvd_left t m)).mul_left k
    simpa using (hk.of_dvd (Int.gcd_dvd_right t m)).trans (hstep.add_left s)
  · intro h
    obtain ⟨c, hc⟩ := h.symm.dvd
    -- The multiple of the step may be negative; going around makes it a count.
    let k : Int := Int.gcdA t m * c
    have hcount : ((k % m).toNat : Int) ≡ k [ZMOD m] := by
      rw [Int.toNat_of_nonneg (Int.emod_nonneg k (by omega))]
      exact Int.mod_modEq k m
    refine ⟨(k % m).toNat, ?_⟩
    calc x = s + (t * Int.gcdA t m + m * Int.gcdB t m) * c := by
          rw [← Int.gcd_eq_gcd_ab]
          omega
      _ = s + k * t + m * (Int.gcdB t m * c) := by simp only [k]; ring
      _ ≡ s + k * t [ZMOD m] := by simp [Int.ModEq]
      _ ≡ s + (k % m).toNat * t [ZMOD m] := (hcount.symm.mul_right t).add_left s

theorem lap_eq_iff (start step x : Int64) (k : Nat) :
    lap start step k = x ↔ x.toInt ≡ start.toInt + k * step.toInt [ZMOD (2 ^ 64 : Nat)] := by
  rw [lap, wrap, Int64.ofInt_eq_iff_bmod_eq_toInt, Int.ModEq]
  constructor
  · intro h
    rw [← h]
    exact Int.bmod_emod
  · intro h
    rw [← Int.emod_bmod, ← h, Int.emod_bmod]
    exact x.toInt_bmod

/-- **What a loop variable comes to**, going around as often as it takes. -/
theorem exists_lap_eq_iff (start step x : Int64) :
    (∃ k, lap start step k = x) ↔
      x.toInt ≡ start.toInt [ZMOD Int.gcd step.toInt (2 ^ 64 : Nat)] := by
  simp only [lap_eq_iff]
  exact exists_modEq_add_mul_iff start.toInt step.toInt x.toInt (by decide)

/-! ## How long a loop lasts -/

theorem exists_lasts_iff :
    (∃ count, Lasts start stop step count) ↔ ∃ k, stop < lap start step k := by
  constructor
  · rintro ⟨count, h⟩
    exact ⟨count, h.past⟩
  · intro h
    exact ⟨Nat.find h, Nat.find_spec h, fun k hk => Int64.not_lt.1 (Nat.find_min h hk)⟩

theorem exists_lasts_iff_modEq :
    (∃ count, Lasts start stop step count) ↔
      ∃ x : Int, stop.toInt < x ∧ x ≤ 2 ^ 63 - 1 ∧
        x ≡ start.toInt [ZMOD Int.gcd step.toInt (2 ^ 64)] := by
  rw [exists_lasts_iff]
  constructor
  · rintro ⟨k, hk⟩
    have hlt := (lap start step k).toInt_lt
    exact ⟨(lap start step k).toInt, Int64.lt_iff_toInt_lt.1 hk, by omega,
      (exists_lap_eq_iff start step _).1 ⟨k, rfl⟩⟩
  · rintro ⟨x, hstop, hmax, hx⟩
    have hmin := stop.le_toInt
    have hread : (Int64.ofInt x).toInt = x := Int64.toInt_ofInt_of_le (by omega) (by omega)
    obtain ⟨k, hk⟩ := (exists_lap_eq_iff start step (.ofInt x)).2 (by rw [hread]; exact hx)
    exact ⟨k, by rw [hk, Int64.lt_iff_toInt_lt, hread]; exact hstop⟩

theorem lap_zero_step (start : Int64) (k : Nat) : lap start 0 k = start := by
  simp [lap, wrap]

theorem exists_lasts_zero_step_iff :
    (∃ count, Lasts start stop 0 count) ↔ stop < start := by
  simp only [exists_lasts_iff, lap_zero_step, exists_const]

/-- No integer of 64 bits is past the greatest one. -/
theorem not_lasts_of_greatest (h : stop.toInt = 2 ^ 63 - 1) :
    ¬∃ count, Lasts start stop step count := by
  rw [exists_lasts_iff_modEq]
  rintro ⟨x, hx, hmax, -⟩
  omega

theorem lasts_zero (h : stop < start) : Lasts start stop step 0 :=
  ⟨by rwa [lap_zero], fun k hk => absurd hk (Nat.not_lt_zero k)⟩

/-- As long as the exact sum is one of 64 bits, nothing wraps around. -/
theorem toInt_lap {k : Nat} (hmin : -2 ^ 63 ≤ start.toInt + k * step.toInt)
    (hmax : start.toInt + k * step.toInt < 2 ^ 63) :
    (lap start step k).toInt = start.toInt + k * step.toInt :=
  Int64.toInt_ofInt_of_le hmin hmax

/-- A loop with room for one more step beyond its stop lasts as long as with integers of any
size. -/
theorem lasts_of_room (hstart : start ≤ stop) (hstep : 0 < step)
    (hroom : stop.toInt + step.toInt ≤ 2 ^ 63 - 1) :
    ∃ count : Nat, (count : Int) = (stop.toInt - start.toInt) / step.toInt + 1 ∧
      Lasts start stop step count ∧
      ∀ k ≤ count, (lap start step k).toInt = start.toInt + k * step.toInt := by
  rw [Int64.le_iff_toInt_le] at hstart
  rw [Int64.lt_iff_toInt_lt, Int64.toInt_zero] at hstep
  obtain ⟨laps, hlaps⟩ := Int.eq_ofNat_of_zero_le
    (Int.ediv_nonneg (a := stop.toInt - start.toInt) (b := step.toInt) (by omega) (by omega))
  have hlow : (laps : Int) * step.toInt ≤ stop.toInt - start.toInt := by
    rw [← hlaps]
    exact Int.ediv_mul_le _ (by omega)
  have hhigh : stop.toInt - start.toInt < (laps + 1) * step.toInt := by
    rw [← hlaps]
    exact Int.lt_ediv_add_one_mul_self _ hstep
  have hexact : ∀ k ≤ laps + 1, (lap start step k).toInt = start.toInt + k * step.toInt := by
    intro k hk
    have hmin := start.le_toInt
    have hnonneg : 0 ≤ (k : Int) * step.toInt := Int.mul_nonneg (by omega) (by omega)
    have hle : (k : Int) * step.toInt ≤ (laps + 1) * step.toInt :=
      Int.mul_le_mul_of_nonneg_right (by omega) (by omega)
    have hsplit : ((laps : Int) + 1) * step.toInt = laps * step.toInt + step.toInt := by ring
    exact toInt_lap (by omega) (by omega)
  refine ⟨laps + 1, by push_cast; omega, ⟨?_, fun k hk => ?_⟩, hexact⟩
  · rw [Int64.lt_iff_toInt_lt, hexact _ (Nat.le_refl _)]
    push_cast
    omega
  · rw [Int64.le_iff_toInt_le, hexact k (by omega)]
    have hle : (k : Int) * step.toInt ≤ laps * step.toInt :=
      Int.mul_le_mul_of_nonneg_right (by omega) (by omega)
    omega

end Number

/-! ## The passes of a loop -/

namespace Engine

/-- A body run once for each of the values, one after another, with the variable bound to the
value. -/
def turns (name : Text) (body : Run Unit) (values : List Number) : Run Unit :=
  values.forM fun v => binding name v body

theorem turns_nil (name : Text) (body : Run Unit) : turns name body [] = pure () := rfl

theorem turns_cons (name : Text) (body : Run Unit) (v : Number) (values : List Number) :
    turns name body (v :: values) = (do binding name v body; turns name body values) := rfl

variable {name : Text} {start stop step : Number}

theorem binding_passes_past (left : Nat) (body : Run Unit) (e : Engine)
    (h : start.order stop = .gt) :
    binding name start (passes name stop step body left start) e = .ok () e := by
  unfold passes
  rw [if_pos h, binding_eq_release]
  obtain ⟨sink, scope, depth⟩ := e
  show release name (.ok () ⟨sink, scope.push name start, depth + 1⟩) = _
  simp [release, unbind]

theorem binding_passes_limit (body : Run Unit) (e : Engine) (h : start.order stop ≠ .gt) :
    binding name start (passes name stop step body 0 start) e = .error .passLimit e := by
  unfold passes
  rw [if_neg h, binding_eq_release]
  obtain ⟨sink, scope, depth⟩ := e
  show release name (.error .passLimit ⟨sink, scope.push name start, depth + 1⟩) = _
  simp [release, unbind]

/-- To put the next value in the place of the last one is to bind the variable anew. -/
theorem binding_passes_succ (limit left : Nat) (children : List Node) (h : start.order stop ≠ .gt) :
    binding name start (passes name stop step (visitAll limit children) (left + 1) start) =
      (do
        binding name start (visitAll limit children)
        binding name (start.plus step)
          (passes name stop step (visitAll limit children) left (start.plus step))) := by
  funext ⟨sink, scope, depth⟩
  rw [passes, if_neg h]
  cases hbody : visitAll limit children ⟨sink, scope.push name start, depth + 1⟩ with
  | ok _ e =>
    obtain ⟨sink', rfl⟩ := eq_of_visitAll hbody
    have hturn : binding name start (visitAll limit children) ⟨sink, scope, depth⟩ =
        .ok () ⟨sink', scope, depth⟩ := by
      simp [binding, bind, hbody, unbind]
    rw [bind_of_ok hturn, binding_eq_release, binding_eq_release]
    exact congrArg (release name)
      ((bind_of_ok hbody).trans (bind_of_ok (advance_push sink' scope (depth + 1) name start step)))
  | error halt e =>
    have hturn : binding name start (visitAll limit children) ⟨sink, scope, depth⟩ =
        .error halt (e.unbind name) := by
      simp [binding, bind, hbody]
    rw [bind_of_error hturn, binding_eq_release]
    exact congrArg (release name) (bind_of_error hbody)

/-- The first passes of a loop and what is left of it after them. -/
theorem binding_passes_add (name : Text) (limit count left : Nat) (children : List Node) :
    ∀ {start : Number}, (∀ k < count, (start.counted step k).order stop ≠ .gt) →
      binding name start (passes name stop step (visitAll limit children) (count + left) start) =
        (do
          turns name (visitAll limit children) ((List.range count).map (start.counted step))
          binding name (start.counted step count)
            (passes name stop step (visitAll limit children) left (start.counted step count))) := by
  induction count with
  | zero =>
    intro start _
    simp [turns_nil, Number.counted_zero]
  | succ count ih =>
    intro start hbefore
    have hvalues : (List.range (count + 1)).map (start.counted step) =
        start :: (List.range count).map ((start.plus step).counted step) := by
      simp only [List.range_succ_eq_map, List.map_cons, List.map_map, Number.counted_zero]
      rfl
    have hstart : start.order stop ≠ .gt := hbefore 0 (by omega)
    rw [show count + 1 + left = count + left + 1 by omega,
      binding_passes_succ limit _ children hstart,
      ih fun k hk => hbefore (k + 1) (by omega), hvalues]
    simp only [turns_cons, bind_assoc, Number.counted_succ]

/-! ## Loops over integers -/

theorem visit_loop_eq_binding (limit : Nat) {header : Loop}
    (hrange : header.range? = some (start, stop, step)) (hnan : stop.isNaN = false)
    (children : List Node) (e : Engine) :
    visit limit (.loop header children) e =
      binding header.name start
        (passes header.name stop step (visitAll limit children) limit start) e := by
  rw [visit, loop_eq_release limit _ e ((bounds_eq_ok_iff header start stop step).2 hrange) hnan,
    binding_eq_release]

end Engine

namespace Number

variable {start stop step : Int64}

theorem Lasts.lt_passLimit {count : Nat} (h : Lasts start stop step count) :
    count < Engine.passLimit :=
  Number.lt_passLimit (fun k hk => order_counted_ne_gt (h.before k hk))
    ((order_counted_eq_gt_iff start stop step count).2 h.past)

end Number

namespace Engine

open Number (Lasts lap laps)

variable {header : Loop} {start stop step : Int64}

/-- A loop that lasts `count` passes runs its body so many times, with the value of each lap,
whatever becomes of these runs. -/
theorem visit_loop_eq_turns {limit count : Nat} (hlimit : count ≤ limit)
    (hrange : header.range? = some (.integer start, .integer stop, .integer step))
    (hlasts : Lasts start stop step count) (children : List Node) (e : Engine) :
    visit limit (.loop header children) e =
      turns header.name (visitAll limit children) (laps start step count) e := by
  obtain ⟨left, rfl⟩ := Nat.exists_eq_add_of_le hlimit
  rw [visit_loop_eq_binding _ hrange rfl,
    binding_passes_add header.name _ count left children
      fun k hk => Number.order_counted_ne_gt (hlasts.before k hk),
    Number.map_counted_integer]
  have hrest : ∀ e, binding header.name ((Number.integer start).counted (.integer step) count)
      (passes header.name (.integer stop) (.integer step) (visitAll (count + left) children) left
        ((Number.integer start).counted (.integer step) count)) e = .ok () e :=
    fun e => binding_passes_past left _ e
      ((Number.order_counted_eq_gt_iff start stop step count).2 hlasts.past)
  rw [show binding header.name _ _ = pure () from funext hrest]
  exact congrFun (bind_pure _) e

/-- A loop that never comes past its stop makes all the passes it may make. -/
theorem visit_loop_eq_passLimit {limit : Nat}
    (hrange : header.range? = some (.integer start, .integer stop, .integer step))
    (hnever : ∀ k, lap start step k ≤ stop) {children : List Node} {e e' : Engine}
    (hturns : turns header.name (visitAll limit children) (laps start step limit) e = .ok () e') :
    visit limit (.loop header children) e = .error .passLimit e' := by
  have hbefore : ∀ k,
      ((Number.integer start).counted (.integer step) k).order (.integer stop) ≠ .gt :=
    fun k => Number.order_counted_ne_gt (hnever k)
  have hsplit := binding_passes_add header.name limit limit 0 children fun k _ => hbefore k
  rw [Nat.add_zero, Number.map_counted_integer] at hsplit
  rw [visit_loop_eq_binding _ hrange rfl, hsplit, bind_of_ok hturns]
  exact binding_passes_limit _ e' (hbefore limit)

/-- **Loops over integers of 64 bits**, around a body that ends well in each pass that there
is. The body runs once for each value that the variable, wrapped around, has before it is
past the stop, and the loop ends if and only if it ever is. That is so if and only if an
integer of 64 bits beyond the stop is congruent to the start modulo the greatest common
divisor of the step and 2^64. Hence a step of zero ends only from beyond the stop, and no
loop up to the greatest integer ends. Where there is room for one more step beyond the stop,
the passes are as many as with integers of any size, and nothing wraps around; from beyond
the stop there is no pass. -/
theorem visit_integer_loop {limit : Nat} (hlimit : passLimit ≤ limit)
    (hrange : header.range? = some (.integer start, .integer stop, .integer step))
    (children : List Node) (e : Engine)
    (hbody : ∀ count, (∀ k < count, lap start step k ≤ stop) →
      ∃ e', turns header.name (visitAll limit children) (laps start step count) e = .ok () e') :
    (∀ count, Lasts start stop step count →
        visit limit (.loop header children) e =
          turns header.name (visitAll limit children) (laps start step count) e) ∧
      ((∃ e', visit limit (.loop header children) e = .ok () e') ↔
        ∃ count, Lasts start stop step count) ∧
      ((¬∃ count, Lasts start stop step count) →
        ∃ e', visit limit (.loop header children) e = .error .passLimit e') ∧
      ((∃ count, Lasts start stop step count) ↔
        ∃ x : Int, stop.toInt < x ∧ x ≤ 2 ^ 63 - 1 ∧
          x ≡ start.toInt [ZMOD Int.gcd step.toInt (2 ^ 64)]) ∧
      (step = 0 → ((∃ count, Lasts start stop step count) ↔ stop < start)) ∧
      (start ≤ stop → stop.toInt = 2 ^ 63 - 1 → ¬∃ count, Lasts start stop step count) ∧
      (start ≤ stop → 0 < step → stop.toInt + step.toInt ≤ 2 ^ 63 - 1 →
        ∃ count : Nat, (count : Int) = (stop.toInt - start.toInt) / step.toInt + 1 ∧
          Lasts start stop step count ∧
          ∀ k ≤ count, (lap start step k).toInt = start.toInt + k * step.toInt) ∧
      (stop < start → Lasts start stop step 0) := by
  have hturns : ∀ count, Lasts start stop step count →
      visit limit (.loop header children) e =
        turns header.name (visitAll limit children) (laps start step count) e :=
    fun count h => visit_loop_eq_turns (by have := h.lt_passLimit; omega) hrange h children e
  have hnever : (¬∃ count, Lasts start stop step count) →
      ∃ e', visit limit (.loop header children) e = .error .passLimit e' := by
    intro h
    rw [Number.exists_lasts_iff] at h
    have hle : ∀ k, lap start step k ≤ stop := fun k => Int64.not_lt.1 fun hk => h ⟨k, hk⟩
    obtain ⟨e', he⟩ := hbody limit fun k _ => hle k
    exact ⟨e', visit_loop_eq_passLimit hrange hle he⟩
  refine ⟨hturns, ⟨fun ⟨e', he⟩ => ?_, fun ⟨count, h⟩ => ?_⟩, hnever, Number.exists_lasts_iff_modEq,
    fun hzero => hzero ▸ Number.exists_lasts_zero_step_iff,
    fun _ => Number.not_lasts_of_greatest, Number.lasts_of_room, Number.lasts_zero⟩
  · by_contra h
    obtain ⟨e'', he'⟩ := hnever h
    rw [he] at he'
    cases he'
  · rw [hturns count h]
    exact hbody count h.before

/-- From 2^61 up to 2^61 by three times as much. The second value wraps around and is the
least of all; from there it takes one more pass to come past the stop. -/
theorem visit_integer_loop_around :
    let start : Int64 := .ofInt (2 ^ 61)
    let step : Int64 := .ofInt (3 * 2 ^ 61)
    let header : Loop := ⟨"i", .integer (2 ^ 61), .integer (2 ^ 61), some (.integer (3 * 2 ^ 61))⟩
    let children : List Node := [.echo [.loopVariable "i"]]
    let e := onSink (.fresh .utf8 true [] (.unbounded []))
    header.range? = some (.integer start, .integer start, .integer step) ∧
      (∀ count, (∀ k < count, lap start step k ≤ start) →
        ∃ e', turns "i" (visitAll passLimit children) (laps start step count) e = .ok () e') ∧
      Lasts start start step 3 ∧
      laps start step 3 =
        [.integer (.ofInt (2 ^ 61)), .integer (.ofInt (-2 ^ 63)), .integer (.ofInt (-2 ^ 61))] ∧
      visit passLimit (.loop header children) e =
        turns "i" (visitAll passLimit children) (laps start step 3) e ∧
      ∃ e', visit passLimit (.loop header children) e = .ok () e' := by
  intro start step header children e
  have hrange : header.range? = some (.integer start, .integer start, .integer step) := by
    decide +kernel
  have hlasts : Lasts start start step 3 := ⟨by decide +kernel, by decide +kernel⟩
  have hbody : ∀ count, (∀ k < count, lap start step k ≤ start) →
      ∃ e', turns "i" (visitAll passLimit children) (laps start step count) e = .ok () e' := by
    intro count hcount
    have hle : count ≤ 3 := by
      by_contra h
      exact absurd hlasts.past (Int64.not_lt.2 (hcount 3 (by omega)))
    match count, hle with
    | 0, _ | 1, _ | 2, _ | 3, _ => exact exists_ok_of_run' (by decide +kernel)
  obtain ⟨hturns, hends, -⟩ :=
    visit_integer_loop (Nat.le_refl passLimit) hrange children e hbody
  exact ⟨hrange, hbody, hlasts, by decide +kernel, hturns 3 hlasts, hends.2 ⟨3, hlasts⟩⟩

end Engine

end TagTemplate
