/-
Curves that are sampled.

A curve whose control points are points of the plane is sampled as points of the plane, one for each
parameter, and so is its derivative.  Between neighbours there is one segment.

* `evenlySpaced_eq`, `evenlySpaced_eq_ok`, `evenlySpaced_tooMany`: the parameters, and how many there are,
* `exists_sample`, `exists_sampleTangents`: as many points, and as many tangents,
* `exists_segments`, `length_partialSums`: segments between points, and the lengths up to each of them.
-/
import FeynmanTikz.Proofs.Stroke.Arrays

namespace FeynmanTikz

variable {R : Type} [Arithmetic R]

/-! ### Parameters -/

theorem evenlySpaced_eq (stop : R) {m : Nat} (hm : 1 ≤ m) (hmax : (m : Int) + 1 ≤ maxSamples) :
    evenlySpaced stop (m + 1) = .ok (evenSteps stop m) := by
  obtain ⟨k, rfl⟩ : ∃ k, m = k + 1 := ⟨m - 1, by omega⟩
  unfold evenlySpaced
  rw [if_neg (by omega), if_neg (by omega), show (((k + 1 : Nat) : Int) + 1).toNat = k + 2 by omega]

theorem length_evenSteps (stop : R) (m : Nat) : (evenSteps stop m).length = m + 1 := by
  unfold evenSteps
  rw [List.length_append, List.length_map, List.length_range]
  rfl

theorem evenlySpaced_eq_ok (stop : R) {n : Int} (hn : 1 ≤ n) (hmax : n + 1 ≤ maxSamples) :
    ∃ ts, evenlySpaced stop (n + 1) = .ok ts ∧ (ts.length : Int) = n + 1 := by
  obtain ⟨m, rfl⟩ : ∃ m : Nat, n = m := ⟨n.toNat, by omega⟩
  refine ⟨_, evenlySpaced_eq stop (by omega) hmax, ?_⟩
  rw [length_evenSteps]
  rfl

theorem evenlySpaced_tooMany (stop : R) {n : Int} (h : maxSamples < n) :
    evenlySpaced stop n = .error (.refused .tooManySamples) := by
  have hmax : 0 < maxSamples := by decide
  unfold evenlySpaced
  rw [if_neg (by omega), if_pos h]

/-! ### Points and tangents -/

section

omit [Arithmetic R] in
/-- Rows of two numbers are points. -/
theorem ofBlock_pairs (ps : List (R × R)) :
    Positions.ofBlock ⟨[ps.length, 2], ps.flatMap fun p => [p.1, p.2]⟩ = .ofPairs ps := by
  show Positions.rows 2 (pieces 2 ps.length (ps.flatMap fun p => [p.1, p.2])) = _
  rw [pieces_flatMap 2 fun _ => rfl, Positions.ofPairs]

omit [Arithmetic R] in
theorem exists_pairs : ∀ {n : Nat} {xs : List R}, xs.length = n * 2 →
    ∃ ps : List (R × R), xs = ps.flatMap (fun p => [p.1, p.2]) ∧ ps.length = n
  | 0, xs, h => ⟨[], List.length_eq_zero_iff.1 (by omega), rfl⟩
  | n + 1, x :: y :: rest, h => by
    have hrest : rest.length = n * 2 := by
      simp only [List.length_cons] at h
      omega
    obtain ⟨ps, hps, hlength⟩ := exists_pairs hrest
    exact ⟨(x, y) :: ps, congrArg (x :: y :: ·) hps, congrArg (· + 1) hlength⟩
  | n + 1, [], h => by simp at h
  | n + 1, [x], h => by simp at h; omega

omit [Arithmetic R] in
/-- Any numbers in rows of two are points. -/
theorem exists_ofPairs {n : Nat} {xs : List R} (h : xs.length = n * 2) :
    ∃ ps, Positions.ofBlock ⟨[n, 2], xs⟩ = .ofPairs ps ∧ ps.length = n := by
  obtain ⟨ps, rfl, rfl⟩ := exists_pairs h
  exact ⟨ps, ofBlock_pairs ps, rfl⟩

end

namespace Cubic

variable {c : Cubic R} {k : Nat} {p₀ p₁ p₂ p₃ : R × R}

/-- The control points are points of the plane. -/
structure Within (k : Nat) (c : Cubic R) (p₀ p₁ p₂ p₃ : R × R) : Prop where
  p0 : c.p0.Within k p₀
  p1 : c.p1.Within k p₁
  p2 : c.p2.Within k p₂
  p3 : c.p3.Within k p₃

/-- The coordinates of the control points become numbers, wherever these stand. -/
structure Reads (c : Cubic R) (p₀ p₁ p₂ p₃ : R × R) : Prop where
  p0 : c.p0.Reads p₀
  p1 : c.p1.Reads p₁
  p2 : c.p2.Reads p₂
  p3 : c.p3.Reads p₃

theorem Within.reads (h : c.Within k p₀ p₁ p₂ p₃) : c.Reads p₀ p₁ p₂ p₃ :=
  ⟨h.p0.reads, h.p1.reads, h.p2.reads, h.p3.reads⟩

/-- The coordinates of the control points are numbers of the machine. -/
def IsMachine (c : Cubic R) : Prop := c.p0.IsMachine ∧ c.p1.IsMachine ∧ c.p2.IsMachine ∧ c.p3.IsMachine

/-- A sum of the steps between four points with the weights at a parameter. -/
def blendSteps (p₀ p₁ p₂ p₃ : R × R) (t : R) : R × R :=
  let u := constant 1 - t
  let sum (a₀ a₁ a₂ a₃ : R) : R :=
    constant 3 * u * u * (a₁ - a₀) + constant 6 * u * t * (a₂ - a₁) + constant 3 * t * t * (a₃ - a₂)
  (sum p₀.1 p₁.1 p₂.1 p₃.1, sum p₀.2 p₁.2 p₂.2 p₃.2)

omit [Arithmetic R] in
/-- A table has a row for each parameter of a list. -/
theorem table_list (fs : List (R → R)) (ts : List R) :
    table fs ts.length [] ⟨[ts.length], ts⟩ = ⟨[ts.length, fs.length], ts.flatMap fun t => fs.map (· t)⟩ := by
  show Block.mk _ ((pieces 1 ts.length ts).flatMap fun slab => fs.flatMap slab.map) = _
  rw [pieces_one, List.flatMap_map]
  simp only [List.map_singleton, ← List.map_eq_flatMap]

variable [Arrays R] [LawfulArrays R]

theorem Reads.controls_eq (h : c.Reads p₀ p₁ p₂ p₃) :
    c.controls = .ok ⟨[4, 2], [p₀.1, p₀.2, p₁.1, p₁.2, p₂.1, p₂.2, p₃.1, p₃.2]⟩ :=
  LawfulArrays.ofValue (List.cons_ne_nil _ _) (.cons h.p0 (.cons h.p1 (.cons h.p2 (.cons h.p3 .nil))))

/-- A point is computed for each parameter. -/
theorem Within.exists_sample (h : c.Within k p₀ p₁ p₂ p₃) (ts : List R) :
    ∃ ps, c.sample ts = .ok (.ofPairs ps) ∧ ps.length = ts.length := by
  have hlength : (ts.flatMap fun t => (weights : List (R → R)).map (· t)).length = ts.length * 4 := by
    rw [List.length_flatMap]
    simp [weights]
  have hcontrols : [p₀.1, p₀.2, p₁.1, p₁.2, p₂.1, p₂.2, p₃.1, p₃.2].length = 4 * 2 := rfl
  obtain ⟨zs, hproduct, hzs⟩ := LawfulArrays.product hlength hcontrols
  obtain ⟨ps, hps, hcount⟩ := exists_ofPairs hzs
  refine ⟨ps, ?_, hcount⟩
  unfold sample sampleBlock
  rw [h.reads.controls_eq]
  show (do
    return Positions.ofBlock
      (← fitting (Arrays.product? (table weights ts.length [] ⟨[ts.length], ts⟩) _))) = _
  rw [table_list, show (weights : List (R → R)).length = 4 from rfl, hproduct, ← hps]
  rfl

/-- A difference is multiplied by a weight for each parameter. -/
theorem zip?_weight (w : R → R) (ts : List R) (x y : R) :
    Arrays.zip? (· * ·) (table [w] ts.length [] ⟨[ts.length], ts⟩) ⟨[2], [x, y]⟩ =
      some ⟨[ts.length, 2], ts.flatMap fun t => [w t * x, w t * y]⟩ := by
  have hcolumn := LawfulArrays.zip_column (· * ·) (ts.map w) [x, y]
  rw [List.length_map, List.flatMap_map] at hcolumn
  rw [table_list]
  show Arrays.zip? _ ⟨[ts.length, 1], ts.flatMap fun t => [w t]⟩ _ = _
  rw [← List.map_eq_flatMap]
  exact hcolumn

/-- Rows of two numbers are added. -/
theorem zip?_add (f g : R → R × R) (ts : List R) :
    Arrays.zip? (· + ·) ⟨[ts.length, 2], ts.flatMap fun t => [(f t).1, (f t).2]⟩
      ⟨[ts.length, 2], ts.flatMap fun t => [(g t).1, (g t).2]⟩ =
      some ⟨[ts.length, 2], ts.flatMap fun t => [(f t).1 + (g t).1, (f t).2 + (g t).2]⟩ := by
  have hlength (f : R → R × R) : (ts.flatMap fun t => [(f t).1, (f t).2]).length = ts.length * 2 := by
    rw [List.length_flatMap]
    simp
  have hzip := zipWith_flatMap (· + ·) (g := fun t => [(f t).1, (f t).2]) (h := fun t => [(g t).1, (g t).2])
    (fun _ => rfl) ts
  rw [LawfulArrays.zip_rows _ (hlength f) (hlength g), hzip]
  rfl

/-- A tangent is computed for each parameter. -/
theorem Reads.sampleTangents_eq (h : c.Reads p₀ p₁ p₂ p₃) (hm : c.IsMachine) (ts : List R) :
    c.sampleTangents ts = .ok (.ofPairs (ts.map (blendSteps p₀ p₁ p₂ p₃))) := by
  obtain ⟨hm₀, hm₁, hm₂, hm₃⟩ := hm
  have hblocks : weightedBlocks ts.length [] ⟨[ts.length], ts⟩ ⟨[2], [p₁.1 - p₀.1, p₁.2 - p₀.2]⟩
      ⟨[2], [p₂.1 - p₁.1, p₂.2 - p₁.2]⟩ ⟨[2], [p₃.1 - p₂.1, p₃.2 - p₂.2]⟩ =
      some ⟨[ts.length, 2], ts.flatMap fun t =>
        [(blendSteps p₀ p₁ p₂ p₃ t).1, (blendSteps p₀ p₁ p₂ p₃ t).2]⟩ := by
    unfold weightedBlocks tangentWeights
    simp only [zip?_weight, Option.bind_eq_bind, Option.bind_some]
    rw [zip?_add (fun t => (_, _)) fun t => (_, _), Option.bind_some, zip?_add (fun t => (_, _)) fun t => (_, _)]
    rfl
  unfold sampleTangents sampleTangentsBlock
  simp only [LawfulArrays.difference h.p1 h.p0 hm₁ hm₀, LawfulArrays.difference h.p2 h.p1 hm₂ hm₁,
    LawfulArrays.difference h.p3 h.p2 hm₃ hm₂, ok_bind, hblocks, fitting]
  have hpairs := ofBlock_pairs (ts.map (blendSteps p₀ p₁ p₂ p₃))
  rw [List.length_map, List.flatMap_map] at hpairs
  rw [hpairs]
  rfl

theorem Within.exists_sampleTangents (h : c.Within k p₀ p₁ p₂ p₃) (hk : k < 2 ^ 63) (ts : List R) :
    ∃ ps, c.sampleTangents ts = .ok (.ofPairs ps) ∧ ps.length = ts.length :=
  ⟨_, h.reads.sampleTangents_eq ⟨h.p0.isMachine hk, h.p1.isMachine hk, h.p2.isMachine hk, h.p3.isMachine hk⟩ ts,
    List.length_map ..⟩

end Cubic

/-! ### Segments -/

section

variable [Arrays R]

theorem exists_mapM_steps : ∀ (p : R × R) (ps : List (R × R)), ∃ lengths,
    (Path.steps ((p :: ps).map fun p => [p.1, p.2])).mapM Path.stepLength? = some lengths ∧
      lengths.length = ps.length
  | p, [] => ⟨[], rfl, rfl⟩
  | p, q :: ps => by
    obtain ⟨lengths, hlengths, hcount⟩ := exists_mapM_steps q ps
    refine ⟨Arrays.hypot (q.1 - p.1) (q.2 - p.2) :: lengths, ?_, congrArg (· + 1) hcount⟩
    show (Path.step [p.1, p.2] [q.1, q.2] :: Path.steps ((q :: ps).map fun p => [p.1, p.2])).mapM
      Path.stepLength? = _
    rw [List.mapM_cons, hlengths]
    rfl

/-- There is one segment less than points. -/
theorem exists_segments {ps : List (R × R)} (hps : ps ≠ []) : ∃ lengths,
    (Positions.ofPairs ps).segments = .ok lengths ∧ lengths.length + 1 = ps.length := by
  obtain ⟨p, ps, rfl⟩ := List.exists_cons_of_ne_nil hps
  obtain ⟨lengths, hlengths, hcount⟩ := exists_mapM_steps p ps
  refine ⟨lengths, ?_, congrArg (· + 1) hcount⟩
  show Path.segments ((p :: ps).map fun p => [p.1, p.2]) = _
  unfold Path.segments
  rw [hlengths]

omit [Arrays R] in
theorem length_partialSums : ∀ (start : R) (xs : List R), (Path.partialSums start xs).length = xs.length + 1
  | _, [] => rfl
  | start, x :: xs => congrArg (· + 1) (length_partialSums (start + x) xs)

end

omit [Arithmetic R] in
theorem expectCoordinate_ofPairs (ps : List (R × R)) : (Positions.ofPairs ps).expectCoordinate 1 = .ok () := rfl

omit [Arithmetic R] in
theorem pairs?_ofPairs (ps : List (R × R)) : (Positions.ofPairs ps).pairs? = some ps := by
  show (ps.map fun p => [p.1, p.2]).mapM _ = some ps
  rw [List.mapM_map]
  exact List.mapM_pure.trans (congrArg some (List.map_id ps))

end FeynmanTikz
