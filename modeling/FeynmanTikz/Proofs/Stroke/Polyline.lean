/-
The polyline of an edge starts and ends on it.

Whatever the stroke kind, a valid edge is drawn from its start to its end, and how many vertices there are
follows from the settings and from its length.  Nothing is ever divided by zero, also where all points of an
edge coincide.

* `Edge.Asks s n`: with the settings `s` the polyline is to have `n` vertices,
* `Edge.polyline_cases`: an edge is drawn plain or decorated,
* `Edge.polyline_draws`: every valid edge is drawn with as many vertices as are asked for,
* `unfit_settings_refused`: settings for which no number of vertices can be counted,
* `Edge.IsValid.exists_polyline`: with the standard settings every valid edge is drawn.
-/
import FeynmanTikz.Proofs.Diagram.Placement
import FeynmanTikz.Proofs.Number.Lengths
import FeynmanTikz.Proofs.Stroke.Decorations

namespace FeynmanTikz

section

variable {R : Type} [Arithmetic R]

/-- The decoration of a stroke kind that has one. -/
def Strokes.decoration? (s : Strokes R) : Value R → Option (Decoration R)
  | .text "wavy" => some s.wavy
  | .text "spring" => some s.spring
  | _ => none

/-- The decoration of an edge, if its stroke kind has one. -/
def Edge.decoration? (e : Edge R) (s : Strokes R) : Option (Decoration R) :=
  e.drawn.toOption.bind fun style => s.decoration? style.strokeKind

variable [Arrays R]

/-- The length of an edge that is to be decorated: that of the chord, or of the curve as it is sampled. -/
def Edge.length (e : Edge R) (d : Decoration R) : Except (Fault R) R :=
  if e.isCurve then e.cubic.sampledLength d.curveSamples
  else do Vec.norm (← Vec.sub e.finish e.start)

/-- An edge is too short to be decorated. -/
def Edge.IsShort (e : Edge R) (s : Strokes R) (d : Decoration R) : Prop :=
  ∃ ℓ, e.length d = .ok ℓ ∧ isShort ℓ s.minDecoratedLength = .ok true

/-- An edge is drawn plain, or with one of the two decorations. -/
theorem Edge.polyline_cases {e : Edge R} {style : Style R} (s : Strokes R) (hstyle : e.drawn = .ok style) :
    (e.decoration? s = none ∧ (e.polyline s.given).result =
      (if e.isCurve then plainPath e.start e.finish e.control s.plainSamples
        else plainPath e.start e.finish).result) ∨
    ∃ d wave, (d = s.wavy ∨ d = s.spring) ∧ e.decoration? s = some d ∧ (e.polyline s.given).result =
      (if e.isCurve then d.curve wave s.minDecoratedLength e.start e.control e.finish
        else d.straight wave s.minDecoratedLength e.start e.finish).result := by
  obtain ⟨kind, color, width, arrow⟩ := style
  have hresult : (e.polyline s.given).result =
      if e.isCurve then (e.curvedPolyline kind s.given).result else (e.straightPolyline kind s.given).result := by
    unfold Edge.polyline
    simp only [Logged.result_bind, result_lift, hstyle, ok_bind]
    exact apply_ite Logged.result _ _ _
  have hdecoration : e.decoration? s = s.decoration? kind := by
    unfold Edge.decoration?
    rw [hstyle]
    rfl
  rw [hresult, hdecoration]
  unfold Strokes.decoration?
  split
  · refine .inr ⟨s.wavy, .sine, .inl rfl, rfl, ?_⟩
    rw [apply_ite Logged.result]
    rfl
  · refine .inr ⟨s.spring, .cosine, .inr rfl, rfl, ?_⟩
    rw [apply_ite Logged.result]
    rfl
  · rename_i hwavy hspring
    have hcurved : (e.curvedPolyline kind s.given).result =
        (plainPath e.start e.finish e.control s.plainSamples).result := by
      unfold Edge.curvedPolyline
      dsimp only
      split
      · exact (hwavy rfl).elim
      · exact (hspring rfl).elim
      · rfl
    have hstraight : (e.straightPolyline kind s.given).result = (plainPath e.start e.finish).result := by
      unfold Edge.straightPolyline
      dsimp only
      split
      · exact (hwavy rfl).elim
      · exact (hspring rfl).elim
      · rfl
    refine .inl ⟨rfl, ?_⟩
    rw [hcurved, hstraight, apply_ite Logged.result]

/-- The number of vertices that the polyline of an edge is to have. -/
inductive Edge.Asks (e : Edge R) (s : Strokes R) : Int → Prop where
  | chord : e.decoration? s = none → e.isCurve = false → e.Asks s 2
  | curve {n : Int} : e.decoration? s = none → e.isCurve = true → s.plainSamples.expectInt = .ok n →
      e.Asks s (max 2 n + 1)
  | short {d : Decoration R} : e.decoration? s = some d → e.IsShort s d → e.Asks s 2
  | wave {d : Decoration R} {n k : Int} {ℓ σ : R} : e.decoration? s = some d → ¬e.IsShort s d →
      e.isCurve = false → d.minSteps.expectInt = .ok n → d.step.expectReal = .ok σ → e.length d = .ok ℓ →
      Counts ℓ σ k → e.Asks s (max n k + 1)
  | curvedWave {d : Decoration R} {n : Int} : e.decoration? s = some d → ¬e.IsShort s d →
      e.isCurve = true → d.curveSamples.expectInt = .ok n → e.Asks s (n + 1)

variable [LawfulArrays R] {ρ : Rat → Rat} [Lengths R ρ] {e : Edge R} {s : Strokes R}

include ρ

/-- A valid edge with a decoration is drawn as its chord if it is short, and with a wave otherwise. -/
theorem Edge.IsValid.decorated_draws (he : e.IsValid) (hs : s.IsSound) {d : Decoration R} (hd : d.IsSound)
    (hsome : e.decoration? s = some d) (wave : Wave) :
    ∃ n, 2 ≤ n ∧ e.Asks s n ∧
      Draws (if e.isCurve then d.curve wave s.minDecoratedLength e.start e.control e.finish
        else d.straight wave s.minDecoratedLength e.start e.finish).result n e.start e.finish := by
  obtain ⟨p, hp⟩ := he.start.exists_within
  obtain ⟨q, hq⟩ := he.finish.exists_within
  obtain ⟨along, r, hsub, halong⟩ := hq.exists_sub hp (by norm_num)
  rcases he.isCurve_cases with hstraight | ⟨hcurve, hcontrol⟩
  · obtain ⟨length, hlength, -⟩ := halong.exists_hypot
    obtain ⟨n, hn, hone⟩ := hd.minSteps
    obtain ⟨σ, hσ, -⟩ := hd.step
    have hnorm : e.length d = .ok (Arithmetic.hypot r.1 r.2) := by
      unfold Edge.length
      rw [hstraight, hsub]
      exact halong.reads.norm_eq
    rw [hstraight]
    rcases hd.straight_draws wave hs.minDecoratedLength hp hq hsub halong hlength hn hone hσ with
      ⟨hshort, hdraws⟩ | ⟨hlong, k, hk, hdraws⟩
    · exact ⟨2, le_rfl, .short hsome ⟨_, hnorm, hshort⟩, hdraws⟩
    · refine ⟨_, by omega, .wave hsome ?_ hstraight hn hσ hnorm hk, hdraws⟩
      rintro ⟨ℓ, hℓ, hshort⟩
      obtain rfl := Except.ok.inj (hnorm.symm.trans hℓ)
      rw [hlong] at hshort
      cases hshort
  · obtain ⟨c, hc⟩ := hcontrol.exists_within
    obtain ⟨n, hn, hone⟩ := hd.curveSamples
    have hshort : e.IsShort s d ↔ ∃ ℓ, e.cubic.sampledLength d.curveSamples = .ok ℓ ∧
        isShort ℓ s.minDecoratedLength = .ok true := by
      unfold Edge.IsShort Edge.length
      rw [hcurve]
      rfl
    rw [hcurve]
    rcases hd.curve_draws wave hs.minDecoratedLength (by norm_num) hp hc hq hsub halong hn hone with
      ⟨h, hdraws⟩ | ⟨h, hdraws⟩
    · exact ⟨2, le_rfl, .short hsome (hshort.2 h), hdraws⟩
    · exact ⟨n + 1, by omega, .curvedWave hsome (mt hshort.1 h) hcurve hn, hdraws⟩

/-- Every valid edge is drawn with the number of vertices that is asked for. -/
theorem Edge.IsValid.exists_draws (he : e.IsValid) (hs : s.IsSound) :
    ∃ n, 2 ≤ n ∧ e.Asks s n ∧ Draws (e.polyline s.given).result n e.start e.finish := by
  obtain ⟨style, hstyle, -⟩ := he.style
  rcases Edge.polyline_cases s hstyle with ⟨hnone, hresult⟩ | ⟨d, wave, hd, hsome, hresult⟩
  · obtain ⟨p, hp⟩ := he.start.exists_within
    obtain ⟨q, hq⟩ := he.finish.exists_within
    rw [hresult]
    rcases he.isCurve_cases with hstraight | ⟨hcurve, hcontrol⟩
    · rw [hstraight]
      exact ⟨2, le_rfl, .chord hnone hstraight, draws_chord hp hq⟩
    · obtain ⟨c, hc⟩ := hcontrol.exists_within
      obtain ⟨n, hn, -⟩ := hs.plainSamples
      rw [hcurve]
      exact ⟨_, by omega, .curve hnone hcurve hn, plainPath_draws hp hc hq hn⟩
  · have hdecoration : d.IsSound := by
      rcases hd with rfl | rfl
      · exact hs.wavy
      · exact hs.spring
    rw [hresult]
    exact he.decorated_draws hs hdecoration hsome wave

/-- Every valid edge is drawn from its start to its end with the number of vertices that is asked for, of
which there are at least two.  A tangent is not divided by a length that is zero, nor is a range of
parameters divided into no steps. -/
theorem Edge.polyline_draws (he : e.check = .ok ()) (hs : s.IsSound) :
    (∃ n, 2 ≤ n ∧ e.Asks s n ∧ Draws (e.polyline s.given).result n e.start e.finish) ∧
      (∀ chord tangent : R × R, unitTangent chord tangent = chord ∨
        ((Arithmetic.reading (Arrays.hypot tangent.1 tangent.2)).isZero = false ∧
          unitTangent chord tangent = (tangent.1 / Arrays.hypot tangent.1 tangent.2,
            tangent.2 / Arrays.hypot tangent.1 tangent.2))) ∧
      ∀ steps : Nat, 0 < steps → steps ≤ maxSamples →
        (Arithmetic.reading (Arithmetic.ofInt steps : R)).isZero = false :=
  ⟨(Edge.check_eq_ok.1 he).exists_draws hs, unitTangent_eq_or, fun _ => isZero_ofInt⟩

end

/-! ### The standard settings -/

/-- What is above a half is above zero, and no zero itself. -/
theorem pos_of_half_lt {r : Reading} (h : (Reading.ofRat (1 / 2)).lt r = true) :
    (Reading.ofInt 0).lt r = true ∧ r.isZero = false := by
  cases r with
  | undefined => cases h
  | infinite n => exact ⟨h, rfl⟩
  | finite n q =>
    have hq : (1 / 2 : Rat) < q := of_decide_eq_true h
    exact ⟨decide_eq_true (show (0 : Rat) < q by linarith), beq_false_of_ne (by linarith)⟩

section

variable {R : Type} [Arithmetic R] {ρ : Rat → Rat} [Rounds R ρ]

include ρ

/-- A decimal that is well above a half does not come near it. -/
theorem half_lt_ofDecimal {m : Nat} {e : Int} (hlow : (3 / 5 : Rat) ≤ m * (10 : Rat) ^ e)
    (hhigh : m * (10 : Rat) ^ e ≤ (1000 : Nat)) :
    (Reading.ofRat (1 / 2)).lt (Arithmetic.reading (Arithmetic.ofDecimal m e : R)) = true := by
  have hρ : IsRounding ρ := Rounds.isRounding R
  have hpos : (0 : Rat) ≤ m * (10 : Rat) ^ e := le_trans (by norm_num) hlow
  have hstands : Stands (Arithmetic.ofDecimal m e : R) false (ρ (m * (10 : Rat) ^ e)) :=
    Rounds.ofDecimal (lt_overflowLimit (by norm_num) (hρ.le_natCast (by norm_num) hpos hhigh))
  have hlower := (abs_le.1 (hρ.near hpos)).1
  rw [hstands.reading_eq]
  refine decide_eq_true ?_
  show (1 / 2 : Rat) < ρ (m * (10 : Rat) ^ e)
  push_cast at hhigh
  linarith

/-- The standard settings make sense. -/
theorem isSound_standard : (Strokes.standard : Strokes R).IsSound := by
  have hpos {m : Nat} {e : Int} (hlow : (3 / 5 : Rat) ≤ m * (10 : Rat) ^ e)
      (hhigh : m * (10 : Rat) ^ e ≤ (1000 : Nat)) := pos_of_half_lt (half_lt_ofDecimal (R := R) hlow hhigh)
  refine ⟨⟨⟨_, rfl⟩, ⟨_, _, rfl, rfl⟩, ⟨_, rfl, (hpos ?_ ?_).2⟩, ⟨_, rfl, (hpos ?_ ?_).1⟩, ⟨26, rfl, by decide⟩,
      ⟨96, rfl, by decide⟩⟩,
    ⟨⟨_, rfl⟩, ⟨_, _, rfl, rfl⟩, ⟨_, rfl, (hpos ?_ ?_).2⟩, ⟨_, rfl, (hpos ?_ ?_).1⟩, ⟨42, rfl, by decide⟩,
      ⟨140, rfl, by decide⟩⟩,
    ⟨64, rfl, by decide⟩, ⟨_, rfl, (hpos ?_ ?_).1⟩⟩
  all_goals norm_num

end

/-- A curve whose points are all the same one. -/
def pointlikeCurve (strokeKind : String) : Edge Float where
  id := .int 1
  kind := .text "curve"
  start := Value.pair (.int 0) (.int 0)
  finish := Value.pair (.int 0) (.int 0)
  control := Value.pair (.int 0) (.int 0)
  style := ({ Style.standard with strokeKind := .text strokeKind } : Style Float).value

theorem polyline_draws_pointlike : (pointlikeCurve "spring").check = .ok () ∧
    (Strokes.standard : Strokes Float).IsSound ∧
    ∃ n, 2 ≤ n ∧ (pointlikeCurve "spring").Asks Strokes.standard n ∧
      Draws ((pointlikeCurve "spring").polyline Strokes.standard.given).result n
        (Value.pair (.int 0) (.int 0)) (Value.pair (.int 0) (.int 0)) := by
  have hcheck : (pointlikeCurve "spring").check = .ok () := by
    have hok : (pointlikeCurve "spring").check.isOk = true := by decide +kernel
    obtain ⟨⟨⟩, hok⟩ := exists_of_isOk hok
    exact hok
  exact ⟨hcheck, isSound_standard, (Edge.polyline_draws hcheck isSound_standard).1⟩

/-- A photon along the first axis. -/
def photonAlongAxis : Edge Float where
  id := .int 1
  kind := .text "straight"
  start := Value.pair (.real (Arithmetic.ofInt 0)) (.real (Arithmetic.ofInt 0))
  finish := Value.pair (.real (Arithmetic.ofInt 40)) (.real (Arithmetic.ofInt 0))
  control := .none
  style := ({ Style.standard with strokeKind := .text "wavy" } : Style Float).value

/-- Settings that are positive, but too small or too large: the smallest step there is goes into a length
more often than a double can say, and whole numbers of any size need not become doubles.  More rows than can
be counted in 60 bits are refused. -/
def unfitSettings : List (String × Value Float) :=
  [("wavy_step", .real (Arithmetic.ofDecimal 5 (-324))), ("wavy_step", .int (10 ^ 400)),
    ("wavy_wavelength", .int (10 ^ 400)), ("wavy_amplitude", .int (10 ^ 400)),
    ("wavy_min_steps", .int (2 ^ 60))]

/-- With each of these settings a valid edge is not drawn at all. -/
theorem unfit_settings_refused : photonAlongAxis.check.isOk = true ∧
    ∀ change ∈ unfitSettings, (Strokes.ofChanges [change]).isOk = true ∧
      (do (photonAlongAxis.polyline (← Strokes.ofChanges [change]).given).result).isOk = false := by
  decide +kernel

/-! ### Drawing with the standard settings -/

section

variable {R : Type} [Arithmetic R]

theorem Stands.unique {x : R} {m n : Bool} {p q : Rat} (hp : Stands x m p) (hq : Stands x n q) : p = q := by
  obtain ⟨rfl, h⟩ := Reading.finite.inj (hp.reading_eq.symm.trans hq.reading_eq)
  rw [← abs_signed_of_nonneg (n := m) hp.nonneg, h, abs_signed_of_nonneg hq.nonneg]

/-- Steps that are not shorter than a half go into a length twice as often as one, at most. -/
theorem Counts.le {ℓ σ : R} {c : Int} (h : Counts ℓ σ c) {u : Rat} {k : Nat} (hℓ : Stands ℓ false u)
    (hu : u ≤ k) (hk : 2 * k < 2 ^ 51) (hσ : (Reading.ofRat (1 / 2)).lt (Arithmetic.reading σ) = true) :
    c ≤ 2 * k := by
  -- a count that is not exact would be larger than this bound
  have hfloor {p q : Rat} (hp : Stands ℓ false p) (hq : Stands σ false q) : ⌊p / q⌋ ≤ 2 * k := by
    obtain rfl := hp.unique hℓ
    rw [hq.reading_eq] at hσ
    have hhalf : (1 / 2 : Rat) < q := of_decide_eq_true hσ
    have hquotient : p / q ≤ 2 * k := by
      rw [div_le_iff₀ (by linarith)]
      nlinarith [Nat.cast_nonneg (α := Rat) k]
    exact Int.floor_le_iff.2 (by push_cast; linarith)
  cases h with
  | exact hp hq _ => exact hfloor hp hq
  | near hp hq hlarge _ =>
    have := hfloor hp hq
    omega
  | infinite _ => exact Int.zero_le_ofNat (2 * k)

variable [Arrays R]

/-- A decoration comes from the settings. -/
theorem Edge.IsValid.decoration?_eq_or {e : Edge R} (he : e.IsValid) {s : Strokes R} {d : Decoration R}
    (hd : e.decoration? s = some d) : d = s.wavy ∨ d = s.spring := by
  obtain ⟨style, hstyle, -⟩ := he.style
  rcases Edge.polyline_cases s hstyle with ⟨hnone, -⟩ | ⟨d', -, hd', hsome, -⟩
  · rw [hnone] at hd
    cases hd
  · rw [hd] at hsome
    cases hsome
    exact hd'

variable [LawfulArrays R] {ρ : Rat → Rat} [Lengths R ρ] {e : Edge R}

include ρ

omit [LawfulArrays R] in
/-- A chord between coordinates is not longer than the diagonal of all there are, so no more steps that are
not shorter than a half go into it than twice this length. -/
theorem Edge.IsValid.counts_le (he : e.IsValid) {d : Decoration R} {ℓ σ : R} {c : Int}
    (hstraight : e.isCurve = false) (hℓ : e.length d = .ok ℓ) (h : Counts ℓ σ c)
    (hσ : (Reading.ofRat (1 / 2)).lt (Arithmetic.reading σ) = true) : c ≤ 2 * (3000000001 : Nat) := by
  obtain ⟨p, hp⟩ := he.start.exists_within
  obtain ⟨q, hq⟩ := he.finish.exists_within
  obtain ⟨along, r, hsub, halong⟩ := hq.exists_sub hp (by norm_num)
  obtain ⟨length, hlength, hle⟩ := halong.exists_hypot
  unfold Edge.length at hℓ
  rw [hstraight, hsub] at hℓ
  obtain rfl := Except.ok.inj (halong.reads.norm_eq.symm.trans hℓ)
  exact h.le hlength hle (by norm_num) hσ

omit [LawfulArrays R] in
/-- With the standard settings no edge asks for more vertices than can be counted. -/
theorem Edge.IsValid.asks_le (he : e.IsValid) {n : Int} (h : e.Asks Strokes.standard n) : n ≤ maxSamples := by
  cases h with
  | chord => decide
  | short => decide
  | curve _ _ hn =>
    cases hn
    decide
  | curvedWave hd _ _ hn =>
    rcases he.decoration?_eq_or hd with rfl | rfl
    · cases hn
      decide
    · cases hn
      decide
  | @wave d m k ℓ σ hd _ hstraight hm hσ hℓ hk =>
    -- both standard steps are well above a half, and 42 is the larger of the two least counts
    obtain ⟨hstep, hmin⟩ : (Reading.ofRat (1 / 2)).lt (Arithmetic.reading σ) = true ∧ m ≤ 42 := by
      rcases he.decoration?_eq_or hd with rfl | rfl
      · cases hσ
        cases hm
        exact ⟨half_lt_ofDecimal (by norm_num) (by norm_num), by decide⟩
      · cases hσ
        cases hm
        exact ⟨half_lt_ofDecimal (by norm_num) (by norm_num), by decide⟩
    have hsteps := he.counts_le hstraight hℓ hk hstep
    unfold maxSamples
    omega

/-- With the standard settings every valid edge is drawn. -/
theorem Edge.IsValid.exists_polyline (he : e.IsValid) :
    ∃ n p, 2 ≤ n ∧ (e.polyline Strokes.standard.given).result = .ok p ∧ p.Spans n e.start e.finish := by
  obtain ⟨n, htwo, hasks, hdraws⟩ := he.exists_draws isSound_standard
  rcases hdraws with ⟨-, p, hp, hspans⟩ | ⟨hmany, -⟩
  · exact ⟨n, p, htwo, hp, hspans⟩
  · exact absurd (he.asks_le hasks) (not_le.2 hmany)

end

end FeynmanTikz
