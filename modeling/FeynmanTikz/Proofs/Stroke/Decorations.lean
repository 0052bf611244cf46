/-
Decorated strokes.

A wave along a chord or a curve is pinned to the ends of its edge, so how many vertices there are is all that
the settings decide.  A length is only ever divided by if it is not short, and a step is positive, so
nothing is divided by zero.

* `Decoration.IsSound`, `Strokes.IsSound`: settings with which every valid edge can be drawn,
* `Draws r n u v`: what comes of asking for `n` vertices from `u` to `v`,
* `Counts ℓ σ k`: a step goes into a length `k` times,
* `plainPath_draws`, `Decoration.IsSound.curve_draws`, `Decoration.IsSound.straight_draws`: a curve, a wave on
  a curve and a wave along a chord are drawn so.

Design notes.
* Settings are numbers of any type, so a sound setting is one that becomes a number that makes sense.
* How often a step goes into a length is a number of type `R`.  A large one need not be exact, and it may be
  too large to be counted.
-/
import FeynmanTikz.Proofs.Stroke.Sampling

namespace FeynmanTikz

section

variable {R : Type} [Arithmetic R]

/-! ### Settings -/

/-- The measures of a decoration become numbers, the wavelength is not zero and the step is positive.  Along
an edge and on a curve there is at least one step. -/
structure Decoration.IsSound (d : Decoration R) : Prop where
  across : ∃ x, d.amplitude.expectReal = .ok x
  along : ∃ v x, d.tangentialRatio.mul d.amplitude = .ok v ∧ v.expectReal = .ok x
  wavelength : ∃ x, d.wavelength.expectReal = .ok x ∧ (Arithmetic.reading x).isZero = false
  step : ∃ x, d.step.expectReal = .ok x ∧ (Reading.ofInt 0).lt (Arithmetic.reading x) = true
  minSteps : ∃ n, d.minSteps.expectInt = .ok n ∧ 1 ≤ n
  curveSamples : ∃ n, d.curveSamples.expectInt = .ok n ∧ 1 ≤ n

/-- A positive number, below which a length is short. -/
def IsLeastLength (m : Value R) : Prop :=
  ∃ x, m.expectNumber = .ok x ∧ (Reading.ofInt 0).lt x.reading = true

/-- The settings of all strokes make sense. -/
structure Strokes.IsSound (s : Strokes R) : Prop where
  wavy : s.wavy.IsSound
  spring : s.spring.IsSound
  plainSamples : ∃ n, s.plainSamples.expectInt = .ok n ∧ 1 ≤ n
  minDecoratedLength : IsLeastLength s.minDecoratedLength

theorem expectNumber_of_expectReal {v : Value R} {x : R} (h : v.expectReal = .ok x) :
    ∃ a, v.expectNumber = .ok a ∧ a.toReal = .ok x := by
  obtain ⟨a, ha, h⟩ := bind_eq_ok.1 h
  refine ⟨a, ha, ?_⟩
  cases hreal : a.toReal with
  | error e => rw [hreal] at h; cases h
  | ok y => rw [hreal] at h; cases h; rfl

omit [Arithmetic R] in
theorem expectNumber_of_expectInt {v : Value R} {n : Int} (h : v.expectInt = .ok n) :
    v.expectNumber = .ok (.int n) := by
  unfold Value.expectInt at h
  unfold Value.expectNumber
  split at h
  · rename_i m hm
    cases h
    rw [hm]
  · cases h

theorem factor_eq {v : Value R} {x : R} (h : v.expectReal = .ok x) : factor v = .ok x := by
  cases v with
  | text t => cases h
  | _ => exact h

theorem Decoration.IsSound.exists_amplitudes {d : Decoration R} (hd : d.IsSound) :
    ∃ p, d.amplitudes = .ok p := by
  obtain ⟨x, hx⟩ := hd.across
  obtain ⟨v, y, hv, hy⟩ := hd.along
  refine ⟨(x, y), ?_⟩
  unfold Decoration.amplitudes
  rw [factor_eq hx, hv, ok_bind, ok_bind, factor_eq hy]
  rfl

theorem Decoration.IsSound.exists_waveNumber {d : Decoration R} (hd : d.IsSound) :
    ∃ k, waveNumber d.wavelength = .ok k := by
  obtain ⟨x, hx, hzero⟩ := hd.wavelength
  obtain ⟨a, ha, hreal⟩ := expectNumber_of_expectReal hx
  refine ⟨(Arithmetic.ofInt 2 * Arithmetic.pi) / x, ?_⟩
  have hdiv : Value.div (.real (Arithmetic.ofInt 2 * Arithmetic.pi)) d.wavelength =
      .ok (.real ((Arithmetic.ofInt 2 * Arithmetic.pi) / x)) := by
    unfold Value.div Value.numeric
    rw [ha]
    show (liftArithmetic (do
      let y ← a.toReal
      if (Arithmetic.reading y).isZero then .error .divisionByZero
      else .ok (.real ((Arithmetic.ofInt 2 * Arithmetic.pi) / y))) >>= fun r => pure (Value.number r)) = _
    rw [hreal, ok_bind, hzero, if_neg (by decide)]
    rfl
  unfold waveNumber
  show (Value.div (.real (Arithmetic.ofInt 2 * Arithmetic.pi)) d.wavelength >>= Value.expectReal) = _
  rw [hdiv]
  rfl

/-! ### Counts -/

theorem sampleCount_eq {v : Value R} {n : Int} (h : v.expectInt = .ok n) : sampleCount v = .ok (n + 1) := by
  cases v with
  | bool b => cases h; rfl
  | number a =>
    cases a with
    | int m => cases h; rfl
    | real x => cases h
  | grid g =>
    have hsum : Value.add (.grid g) (.int 1) = .ok (.int (n + 1)) := by
      show Value.numeric Scalar.add (.grid g) (.int 1) = _
      unfold Value.numeric
      rw [expectNumber_of_expectInt h]
      rfl
    unfold sampleCount
    rw [hsum]
    rfl
  | _ => cases h

theorem exists_max_int {u v : Value R} {m n : Int} (hu : u.expectInt = .ok m) (hv : v.expectInt = .ok n) :
    ∃ w, Value.max u v = .ok w ∧ w.expectInt = .ok (max m n) := by
  unfold Value.max
  rw [expectNumber_of_expectInt hu, expectNumber_of_expectInt hv]
  have hlt : (Scalar.int m : Scalar R).lt (.int n) = decide (m < n) := by
    show decide ((m : Rat) < n) = _
    simp only [Int.cast_lt]
  by_cases h : m < n
  · refine ⟨v, ?_, by rw [max_eq_right h.le]; exact hv⟩
    show Except.ok (if (Scalar.int m : Scalar R).lt (.int n) = true then v else u) = _
    rw [hlt, decide_eq_true h, if_pos rfl]
  · refine ⟨u, ?_, by rw [max_eq_left (not_lt.1 h)]; exact hu⟩
    show Except.ok (if (Scalar.int m : Scalar R).lt (.int n) = true then v else u) = _
    rw [hlt, decide_eq_false h, if_neg (by decide)]

/-- What comes of asking for `n` vertices: as many, from `start` to `finish`, unless these are more than can
be counted. -/
def Draws (r : Except (Fault R) (Positions R)) (n : Int) (start finish : Value R) : Prop :=
  (n ≤ maxSamples ∧ ∃ p, r = .ok p ∧ p.Spans n start finish) ∨
    (maxSamples < n ∧ (r = .error (.arithmetic .overflow) ∨ r = .error (.refused .tooManySamples)))

theorem Draws.of_eq_ok {r : Except (Fault R) (Positions R)} {n : Int} {u v : Value R} (hn : n ≤ maxSamples)
    (h : ∃ p, r = .ok p ∧ p.Spans n u v) : Draws r n u v := .inl ⟨hn, h⟩

theorem Draws.of_tooMany {r : Except (Fault R) (Positions R)} {n : Int} {u v : Value R} (hn : maxSamples < n)
    (h : r = .error (.refused .tooManySamples)) : Draws r n u v := .inr ⟨hn, .inr h⟩

omit [Arithmetic R] in
theorem result_lift {α : Type} (r : Except (Fault R) α) : (liftM r : Logged R α).result = r := rfl

/-! ### Short edges -/

theorem exists_isShort (ℓ : R) {m : Value R} (hm : IsLeastLength m) :
    isShort ℓ m = .ok true ∨ isShort ℓ m = .ok false := by
  obtain ⟨x, hx, -⟩ := hm
  unfold isShort
  rw [hx, ok_bind]
  cases (Scalar.real ℓ).lt x
  · exact .inr rfl
  · exact .inl rfl

/-- What is not short has a length to divide by. -/
theorem isZero_of_not_short {ℓ : R} {m : Value R} (hm : IsLeastLength m) (h : isShort ℓ m = .ok false) :
    (Arithmetic.reading ℓ).isZero = false := by
  obtain ⟨x, hx, hpos⟩ := hm
  unfold isShort at h
  rw [hx, ok_bind] at h
  have hlong : (Arithmetic.reading ℓ).lt x.reading = false := Except.ok.inj h
  rw [Bool.eq_false_iff]
  intro hzero
  obtain ⟨n, hn⟩ := Reading.eq_of_isZero hzero
  have hlt : (Reading.finite n 0).lt x.reading = (Reading.ofInt 0).lt x.reading := by
    cases x.reading <;> rfl
  rw [hn, hlt, hpos] at hlong
  cases hlong

/-! ### Steps that go into a length -/

/-- How often a step goes into a length, rounded down.  From `2 ^ 51` on this may be off by one part in
`2 ^ 50`.  An infinite step does not go into any length. -/
inductive Counts (ℓ σ : R) : Int → Prop
  | exact {p q : Rat} : Stands ℓ false p → Stands σ false q → ⌊p / q⌋ < 2 ^ 51 → Counts ℓ σ ⌊p / q⌋
  | near {p q : Rat} {k : Int} : Stands ℓ false p → Stands σ false q → 2 ^ 51 ≤ ⌊p / q⌋ →
      |(k : Rat) - ⌊p / q⌋| ≤ ⌊p / q⌋ / 2 ^ 50 → Counts ℓ σ k
  | infinite : Arithmetic.reading σ = .infinite false → Counts ℓ σ 0

theorem maxSamples_lt_two_pow : (maxSamples : Rat) < 2 ^ 60 := by
  show ((1152921504606846975 : Int) : Rat) < _
  norm_num

theorem two_pow_le_overflowLimit : 2 * (2 : Rat) ^ 60 ≤ overflowLimit :=
  (pow_succ' (2 : Rat) 60).symm.trans_le (pow_le_pow_right₀ (by norm_num) (by norm_num))

theorem truncate_eq_ok {x : R} {k : Int} (h : Stands x false k) : Scalar.truncate x = .ok k := by
  unfold Scalar.truncate
  rw [h.reading_eq]
  show Except.ok (if (k : Rat) < 0 then (k : Rat).ceil else (k : Rat).floor) = _
  rw [if_neg (not_lt.2 h.nonneg), Rat.floor_intCast]

section

variable {ρ : Rat → Rat} [Lengths R ρ]

include ρ

/-- A positive number is infinite, or it stands above zero. -/
theorem stands_of_pos {x : R} (h : (Reading.ofInt 0).lt (Arithmetic.reading x) = true) :
    Arithmetic.reading x = .infinite false ∨ ∃ q, Stands x false q ∧ 0 < q := by
  cases hread : Arithmetic.reading x with
  | undefined => rw [hread] at h; cases h
  | infinite n =>
    rw [hread] at h
    obtain rfl : n = false := by simpa [Reading.ofInt, Reading.lt] using h
    exact .inl rfl
  | finite n v =>
    rw [hread] at h
    have hv : 0 < v := by simpa [Reading.ofInt] using h
    have hfinite : Arithmetic.isFinite x = true := by
      show (Arithmetic.reading x).isFinite = true
      rw [hread]
      rfl
    obtain ⟨m, q, hq⟩ := Rounds.exists_stands x hfinite
    obtain ⟨-, rfl⟩ := Reading.finite.inj (hread.symm.trans hq.reading_eq)
    cases m with
    | false => exact .inr ⟨q, hq, hv⟩
    | true => exact absurd hq.nonneg (not_le.2 (neg_pos.1 hv))

/-- How often a positive step goes into a length is counted, or it is more than can be counted. -/
theorem exists_floorDiv {ℓ σ : R} {b : Scalar R} {p : Rat} (hℓ : Stands ℓ false p) (hb : b.toReal = .ok σ)
    (hσ : (Reading.ofInt 0).lt (Arithmetic.reading σ) = true) :
    ∃ x k, Scalar.floorDiv ℓ b = .ok x ∧ Counts ℓ σ k ∧ (Scalar.truncate x = .ok k ∨
      (maxSamples < k ∧ Scalar.truncate x = .error .overflow)) := by
  have hfloorDiv (hzero : (Arithmetic.reading σ).isZero = false) :
      Scalar.floorDiv ℓ b = .ok (Arithmetic.floorDiv ℓ σ) := by
    unfold Scalar.floorDiv
    rw [hb, ok_bind, hzero, if_neg (by decide)]
  -- an infinite step, a count that is exact, and a large one, which may also have become infinite
  rcases stands_of_pos hσ with hinfinite | ⟨q, hq, hpos⟩
  · have hzero : Stands (Arithmetic.floorDiv ℓ σ) false (0 : Int) := Lengths.floorDiv_infinite hℓ hinfinite
    exact ⟨_, 0, hfloorDiv (by rw [hinfinite]; rfl), .infinite hinfinite, .inl (truncate_eq_ok hzero)⟩
  have hzero : (Arithmetic.reading σ).isZero = false := by
    rw [hq.reading_eq]
    exact beq_false_of_ne hpos.ne'
  rcases lt_or_ge ⌊p / q⌋ (2 ^ 51) with hsmall | hlarge
  · exact ⟨_, _, hfloorDiv hzero, .exact hℓ hq hsmall, .inl (truncate_eq_ok (Lengths.floorDiv hℓ hq hpos hsmall))⟩
  rcases Lengths.floorDiv_large hℓ hq hpos hlarge with ⟨hinfinite, hlimit⟩ | ⟨k, hnear, hk⟩
  · have hmax : (maxSamples : Rat) < ⌊p / q⌋ := by
      linarith [maxSamples_lt_two_pow, two_pow_le_overflowLimit.trans hlimit]
    have hself : |((⌊p / q⌋ : Int) : Rat) - ⌊p / q⌋| ≤ ⌊p / q⌋ / 2 ^ 50 := by
      rw [sub_self, abs_zero]
      exact div_nonneg (le_trans (by norm_num) (Int.cast_le.2 hlarge)) (by norm_num)
    refine ⟨_, _, hfloorDiv hzero, .near hℓ hq hlarge hself, .inr ⟨Int.cast_lt.1 hmax, ?_⟩⟩
    unfold Scalar.truncate
    rw [hinfinite]
  · exact ⟨_, k, hfloorDiv hzero, .near hℓ hq hlarge hnear, .inl (truncate_eq_ok hk)⟩

/-- The steps between parameters are counted, and what is counted can be divided by. -/
theorem isZero_ofInt {n : Nat} (hn : 0 < n) (hmax : (n : Int) ≤ maxSamples) :
    (Arithmetic.reading (Arithmetic.ofInt n : R)).isZero = false := by
  have hρ : IsRounding ρ := Rounds.isRounding R
  have hone : ((1 : Nat) : Rat) ≤ n := Nat.cast_le.2 hn
  have hlt : ρ n < overflowLimit := by
    have hupper := (abs_le.1 (hρ.near (Nat.cast_nonneg (α := Rat) n))).2
    have hn : (n : Rat) ≤ maxSamples := by exact_mod_cast hmax
    have hsamples := maxSamples_lt_two_pow
    have hlimit := two_pow_le_overflowLimit
    linarith
  have hstands : Stands (Arithmetic.ofInt n : R) _ (ρ n) := stands_ofInt_of_lt (k := n) hlt
  have hpos : (0 : Rat) < ρ n := lt_of_lt_of_le (by norm_num) (hρ.natCast_le (by norm_num) hone)
  rw [hstands.reading_eq]
  exact beq_false_of_ne hpos.ne'

end

/-! ### Plain strokes -/

variable [Arrays R] [LawfulArrays R]

theorem draws_chord {k : Nat} {u v : Value R} {p q : R × R} (hu : u.Within k p) (hv : v.Within k q) :
    Draws (Positions.chord u v) 2 u v := .of_eq_ok (by decide) (hu.exists_chord hv)

/-- Two vertices or more are pinned to the ends. -/
theorem draws_pinEnds {α : Type} {k : Nat} {u v : Value R} {p q : R × R} (hu : u.Within k p)
    (hv : v.Within k q) (f g : α → R) {as : List α} {n : Int} (hn : (as.length : Int) = n) (htwo : 2 ≤ n)
    (hmax : n ≤ maxSamples) :
    Draws (recordPinEnds (.rows 2 (as.map fun a => [f a, g a])) u v).result n u v := by
  have hpairs : Positions.rows 2 (as.map fun a => [f a, g a]) = .ofPairs (as.map fun a => (f a, g a)) := by
    rw [Positions.ofPairs, List.map_map]
    rfl
  have hlength : ((as.map fun a => (f a, g a)).length : Int) = n := by rw [List.length_map, hn]
  rw [hpairs]
  show Draws ((Positions.ofPairs (as.map fun a => (f a, g a))).pinned u v) n u v
  rw [← hlength] at htwo hmax ⊢
  exact .of_eq_ok hmax (hu.exists_pinned hv (by omega))

/-- A curve is drawn in two steps at least. -/
theorem plainPath_draws {k : Nat} {u c v samples : Value R} {p₀ p₁ p₂ : R × R} {n : Int} (hu : u.Within k p₀)
    (hc : c.Within k p₁) (hv : v.Within k p₂) (hn : samples.expectInt = .ok n) :
    Draws (plainPath u v c samples).result (max 2 n + 1) u v := by
  obtain ⟨w, hw, hcount⟩ := exists_max_int (u := (.int 2 : Value R)) rfl hn
  have hsome : c.isSome = true := by
    obtain ⟨a, b, rfl | rfl, -⟩ := hc <;> rfl
  unfold plainPath
  rw [if_pos hsome]
  simp only [Logged.result_bind, result_lift, hw, ok_bind, sampleCount_eq hcount]
  by_cases hmax : max 2 n + 1 ≤ maxSamples
  · obtain ⟨ts, hts, hlength⟩ := evenlySpaced_eq_ok (Arithmetic.ofInt 1 : R) (by omega) hmax
    have hcubic : (⟨u, c, c, v⟩ : Cubic R).Within k p₀ p₁ p₁ p₂ := ⟨hu, hc, hc, hv⟩
    obtain ⟨ps, hsample, hps⟩ := hcubic.exists_sample ts
    simp only [hts, hsample, ok_bind]
    rw [← hlength, ← hps]
    exact .of_eq_ok (by omega) (hu.exists_pinned hv (by omega))
  · rw [evenlySpaced_tooMany _ (not_le.1 hmax)]
    exact .of_tooMany (not_le.1 hmax) rfl

/-! ### Waves on a curve -/

/-- The length of a curve as it is sampled. -/
def Cubic.sampledLength (c : Cubic R) (samples : Value R) : Except (Fault R) R := do
  let ts ← evenlySpaced (Arithmetic.ofInt 1 : R) (← sampleCount samples)
  let base ← c.sample ts
  return Arrays.total (← base.segments)

section

variable {ρ : Rat → Rat} [Rounds R ρ]

include ρ

/-- A wave on a curve, or its chord if the sampled curve is short. -/
theorem Decoration.IsSound.curve_draws {d : Decoration R} (hd : d.IsSound) (wave : Wave) {k : Nat}
    {l : Nat} {m u c v along : Value R} {p₀ p₁ p₂ r : R × R} {n : Int} (hm : IsLeastLength m) (hk : k < 2 ^ 63)
    (hu : u.Within k p₀) (hc : c.Within k p₁) (hv : v.Within k p₂) (hsub : Vec.sub v u = .ok along)
    (halong : along.Within l r) (hn : d.curveSamples.expectInt = .ok n) (hone : 1 ≤ n) :
    ((∃ ℓ, Cubic.sampledLength ⟨u, c, c, v⟩ d.curveSamples = .ok ℓ ∧ isShort ℓ m = .ok true) ∧
      Draws (d.curve wave m u c v).result 2 u v) ∨
    ((¬∃ ℓ, Cubic.sampledLength ⟨u, c, c, v⟩ d.curveSamples = .ok ℓ ∧ isShort ℓ m = .ok true) ∧
      Draws (d.curve wave m u c v).result (n + 1) u v) := by
  unfold Cubic.sampledLength Decoration.curve
  simp only [Logged.result_bind, result_lift, sampleCount_eq hn, ok_bind]
  by_cases hmax : n + 1 ≤ maxSamples
  · obtain ⟨ts, hts, hlength⟩ := evenlySpaced_eq_ok (Arithmetic.ofInt 1 : R) hone hmax
    have hcubic : (⟨u, c, c, v⟩ : Cubic R).Within k p₀ p₁ p₁ p₂ := ⟨hu, hc, hc, hv⟩
    obtain ⟨ps, hsample, hps⟩ := hcubic.exists_sample ts
    have hne : ps ≠ [] := by
      rintro rfl
      rw [List.length_nil] at hps
      omega
    obtain ⟨lengths, hsegments, hcount⟩ := exists_segments hne
    simp only [hts, hsample, hsegments, ok_bind, pure_eq_ok]
    rcases exists_isShort (Arrays.total lengths) hm with hshort | hlong
    · refine .inl ⟨⟨_, rfl, hshort⟩, ?_⟩
      rw [hshort]
      exact draws_chord hu hv
    · obtain ⟨tangents, htangents, htcount⟩ := hcubic.exists_sampleTangents hk ts
      obtain ⟨w, q, hw, hq⟩ := halong.reads.exists_normalize exists_coordinates_unitX
      obtain ⟨wn, hwn⟩ := hd.exists_waveNumber
      obtain ⟨measures, hmeasures⟩ := hd.exists_amplitudes
      refine .inr ⟨?_, ?_⟩
      · rintro ⟨ℓ, hℓ, hshort⟩
        cases hℓ
        rw [hlong] at hshort
        cases hshort
      · simp only [hlong, htangents, hsub, hw, hq, hwn, hmeasures, ok_bind, pairs?_ofPairs, fitting,
          expectCoordinate_ofPairs, Bool.false_eq_true, if_false, Logged.result_bind, result_lift]
        refine draws_pinEnds hu hv _ _ ?_ (by omega) hmax
        rw [List.length_zip, List.length_zip, Path.arcLengths, length_partialSums, htcount, hcount, hps]
        omega
  -- the parameters are refused before there is a length to compare
  · have htooMany := evenlySpaced_tooMany (Arithmetic.ofInt 1 : R) (not_le.1 hmax)
    refine .inr ⟨?_, .of_tooMany (not_le.1 hmax) (by rw [htooMany]; rfl)⟩
    rw [htooMany]
    rintro ⟨ℓ, hℓ, -⟩
    cases hℓ

end

/-! ### Waves along a chord -/

section

variable {ρ : Rat → Rat} [Lengths R ρ]

include ρ

/-- A wave along a chord, or the chord if it is short. -/
theorem Decoration.IsSound.straight_draws {d : Decoration R} (hd : d.IsSound) (wave : Wave) {k l : Nat}
    {m u v along : Value R} {p q r : R × R} {n : Int} {σ : R} {length : Rat}
    (hm : IsLeastLength m) (hu : u.Within k p) (hv : v.Within k q) (hsub : Vec.sub v u = .ok along)
    (halong : along.Within l r) (hlength : Stands (Arithmetic.hypot r.1 r.2) false length)
    (hn : d.minSteps.expectInt = .ok n) (hone : 1 ≤ n) (hσ : d.step.expectReal = .ok σ) :
    (isShort (Arithmetic.hypot r.1 r.2) m = .ok true ∧ Draws (d.straight wave m u v).result 2 u v) ∨
    (isShort (Arithmetic.hypot r.1 r.2) m = .ok false ∧ ∃ c, Counts (Arithmetic.hypot r.1 r.2) σ c ∧
      Draws (d.straight wave m u v).result (max n c + 1) u v) := by
  unfold Decoration.straight
  simp only [Logged.result_bind, result_lift, hsub, halong.reads.norm_eq, ok_bind]
  rcases exists_isShort (Arithmetic.hypot r.1 r.2) hm with hshort | hlong
  · refine .inl ⟨hshort, ?_⟩
    rw [hshort]
    exact draws_chord hu hv
  refine .inr ⟨hlong, ?_⟩
  obtain ⟨w, hw, hcoordinates⟩ := halong.reads.exists_dividedBy (isZero_of_not_short hm hlong)
  obtain ⟨wn, hwn⟩ := hd.exists_waveNumber
  obtain ⟨measures, hmeasures⟩ := hd.exists_amplitudes
  obtain ⟨σ', hσ', hpos⟩ := hd.step
  obtain rfl : σ' = σ := Except.ok.inj (hσ'.symm.trans hσ)
  obtain ⟨b, hb, hreal⟩ := expectNumber_of_expectReal hσ
  obtain ⟨x, c, hfloorDiv, hcounts, hcount⟩ := exists_floorDiv hlength hreal hpos
  refine ⟨c, hcounts, ?_⟩
  simp only [hlong, hw, hcoordinates, stepCount, hb, hfloorDiv, ok_bind, Bool.false_eq_true, if_false,
    liftArithmetic, Logged.result_bind, result_lift]
  rcases hcount with hcount | ⟨hlarge, hcount⟩
  · obtain ⟨steps, hsteps, hint⟩ := exists_max_int (v := (.int c : Value R)) hn rfl
    simp only [hcount, hsteps, hwn, sampleCount_eq hint, hmeasures, hu.reads.coordinates_eq, ok_bind]
    by_cases hmax : max n c + 1 ≤ maxSamples
    · obtain ⟨positions, hpositions, hlength⟩ :=
        evenlySpaced_eq_ok (Arithmetic.hypot r.1 r.2) (by omega : 1 ≤ max n c) hmax
      simp only [hpositions, ok_bind]
      exact draws_pinEnds hu hv _ _ hlength (by omega) hmax
    · rw [evenlySpaced_tooMany _ (not_le.1 hmax)]
      exact .of_tooMany (not_le.1 hmax) rfl
  · simp only [hcount]
    exact .inr ⟨by omega, .inl rfl⟩

end

end

end FeynmanTikz
