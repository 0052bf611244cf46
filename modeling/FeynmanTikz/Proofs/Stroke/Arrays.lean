/-
Arrays of points.

Points are read into the rows of an array, and arrays meet row by row.  This is what is asked of a library of
arrays: shapes, the places of cells, and sums and differences that are taken cell by cell.  Of a product of
matrices only the shape is asked, since its sums may be taken in any order.

* `flatten_pieces`, `pieces_flatMap`: rows of one width, and the list of their cells,
* `stretchedTo_self`, `stretchedTo_column`, `stretchedTo_row`: how arrays are stretched before they meet,
* `LawfulArrays R`: what is asked of a library of arrays,
* `LawfulArrays.of_standard`: the standard one has it, whatever the numbers are,
* `Positions.ofPairs`: points as positions; `Positions.Spans s n u v`: there are `n` of them, the first one
  at `u` and the last one at `v`,
* `Value.Reads.pinned_eq`, `Value.Within.exists_chord`, `Value.Within.exists_pinned`: chords and pinned
  polylines span their ends.
-/
import FeynmanTikz.Proofs.Stroke.Points

namespace FeynmanTikz

/-! ### Rows and cells -/

section

variable {α β γ : Type}

theorem length_pieces (width : Nat) : ∀ (n : Nat) (xs : List α), (pieces width n xs).length = n
  | 0, _ => rfl
  | n + 1, xs => congrArg (· + 1) (length_pieces width n (xs.drop width))

/-- Rows that are put one after the other are cut apart again. -/
theorem pieces_flatMap (width : Nat) {f : β → List α} (hf : ∀ b, (f b).length = width) :
    ∀ bs : List β, pieces width bs.length (bs.flatMap f) = bs.map f
  | [] => rfl
  | b :: bs => by
    rw [List.flatMap_cons, List.length_cons, List.map_cons, ← pieces_flatMap width hf bs, ← hf b]
    show (f b ++ bs.flatMap f).take _ :: pieces _ _ ((f b ++ bs.flatMap f).drop _) = _
    rw [List.take_left, List.drop_left]

theorem length_drop_row {width n : Nat} {xs : List α} (h : xs.length = (n + 1) * width) :
    (xs.drop width).length = n * width := by
  rw [List.length_drop, h, Nat.succ_mul]
  omega

/-- What is cut into rows of one width comes together again, if nothing is left over. -/
theorem flatten_pieces {width : Nat} : ∀ {n : Nat} {xs : List α}, xs.length = n * width →
    (pieces width n xs).flatten = xs
  | 0, xs, h => (List.length_eq_zero_iff.1 (by omega)).symm
  | n + 1, xs, h => by
    show xs.take width ++ (pieces width n (xs.drop width)).flatten = xs
    rw [flatten_pieces (length_drop_row h), List.take_append_drop]

theorem length_of_mem_pieces {width : Nat} : ∀ {n : Nat} {xs : List α}, xs.length = n * width →
    ∀ row ∈ pieces width n xs, row.length = width
  | 0, _, _ => fun _ h => nomatch h
  | n + 1, xs, h => by
    refine List.forall_mem_cons.2 ⟨?_, length_of_mem_pieces (length_drop_row h)⟩
    rw [List.length_take, h, Nat.succ_mul]
    omega

theorem pieces_one (xs : List α) : pieces 1 xs.length xs = xs.map ([·]) := by
  simpa using pieces_flatMap 1 (f := fun x : α => [x]) (fun _ => rfl) xs

theorem pieces_of_length {size : Nat} {xs : List α} (h : xs.length = size) : pieces size 1 xs = [xs] := by
  show [xs.take size] = [xs]
  rw [← h, List.take_length]

/-! ### Stretching -/

theorem stretch_self : ∀ {shape : List Nat} {xs : List α}, xs.length = volume shape →
    stretch (shape.zip shape) xs = xs
  | [], _, _ => rfl
  | n :: rest, xs, h => by
    have hsize : xs.length = n * volume rest := h
    have hvolume : (rest.zip rest).map Prod.fst = rest := List.map_fst_zip le_rfl
    have hkept : (pieces (volume rest) n xs).map (stretch (rest.zip rest)) = pieces (volume rest) n xs := by
      conv_rhs => rw [← List.map_id (pieces (volume rest) n xs)]
      exact List.map_congr_left fun row hrow => stretch_self (length_of_mem_pieces hsize row hrow)
    show (if n = n then _ else _) = xs
    rw [if_pos rfl]
    show ((pieces (volume ((rest.zip rest).map Prod.fst)) n xs).map (stretch (rest.zip rest))).flatten = xs
    rw [hvolume, hkept, flatten_pieces hsize]

/-- What has the shape already is not stretched. -/
theorem stretchedTo_self {shape : List Nat} {xs : List α} (h : xs.length = volume shape) :
    stretchedTo shape shape xs = xs := by
  unfold stretchedTo
  rw [Nat.sub_self]
  exact stretch_self h

/-- A single part is repeated. -/
theorem flatten_replicate (k : Nat) (xs : List α) :
    (if 1 = k then xs else (List.replicate k xs).flatten) = (List.replicate k xs).flatten := by
  split
  · rename_i h
    rw [← h, List.replicate_one, List.flatten_singleton]
  · rfl

/-- Each cell of a column is repeated along its row. -/
theorem stretchedTo_column (k : Nat) (xs : List α) :
    stretchedTo [xs.length, k] [xs.length, 1] xs = xs.flatMap (List.replicate k) := by
  have hcell (x : α) : stretch [(1, k)] [x] = List.replicate k x := by
    show (if 1 = k then [x] else (List.replicate k [x]).flatten) = _
    rw [flatten_replicate, List.flatten_replicate_singleton]
  show (if xs.length = xs.length then _ else _) = _
  rw [if_pos rfl, List.flatMap_def]
  show ((pieces 1 xs.length xs).map (stretch [(1, k)])).flatten = _
  rw [pieces_one, List.map_map]
  exact congrArg List.flatten (List.map_congr_left fun x _ => hcell x)

/-- A row is repeated for each cell of a column. -/
theorem stretchedTo_row (n : Nat) (ys : List α) :
    stretchedTo [n, ys.length] [ys.length] ys = (List.replicate n ys).flatten := by
  have hrow : stretch [(ys.length, ys.length)] ys = ys :=
    show stretch ([ys.length].zip [ys.length]) ys = ys from stretch_self (Nat.mul_one _).symm
  have hsize : volume [ys.length] = ys.length := Nat.mul_one _
  show (if 1 = n then ((pieces (volume [ys.length]) 1 ys).map (stretch [(ys.length, ys.length)])).flatten
    else (List.replicate n ((pieces (volume [ys.length]) 1 ys).map
      (stretch [(ys.length, ys.length)])).flatten).flatten) = _
  rw [hsize, pieces_of_length rfl, List.map_singleton, hrow, List.flatten_singleton, flatten_replicate]

theorem zipWith_column_row (f : α → β → γ) (ys : List β) : ∀ xs : List α,
    List.zipWith f (xs.flatMap (List.replicate ys.length)) (List.replicate xs.length ys).flatten =
      xs.flatMap fun x => ys.map (f x)
  | [] => rfl
  | x :: xs => by
    rw [List.flatMap_cons, List.length_cons, List.replicate_succ, List.flatten_cons,
      List.zipWith_append (List.length_replicate ..), zipWith_column_row f ys xs, List.flatMap_cons]
    congr 1
    induction ys with
    | nil => rfl
    | cons y ys ih => exact congrArg (f x y :: ·) ih

/-- Rows of one width meet row by row. -/
theorem zipWith_flatMap (f : β → β → γ) {g h : α → List β} (hgh : ∀ a, (g a).length = (h a).length) :
    ∀ as : List α, List.zipWith f (as.flatMap g) (as.flatMap h) = as.flatMap fun a => List.zipWith f (g a) (h a)
  | [] => rfl
  | a :: as => by
    rw [List.flatMap_cons, List.flatMap_cons, List.zipWith_append (hgh a), zipWith_flatMap f hgh as,
      List.flatMap_cons]

end

section

variable {R : Type} [Arithmetic R]

/-! ### What is asked of a library -/

/-- Positions are read as rows, and meet cell by cell; blocks of two dimensions are stretched along a
dimension of size one, and multiplied to a block of the size that matrices have. -/
class LawfulArrays (R : Type) [Arithmetic R] [Arrays R] : Prop where
  ofValue : ∀ {vs : List (Value R)} {ps : List (R × R)}, vs ≠ [] → List.Forall₂ Value.Reads vs ps →
    Arrays.ofValue (.list vs) = .ok ⟨[ps.length, 2], ps.flatMap fun p => [p.1, p.2]⟩
  difference : ∀ {u v : Value R} {p q : R × R}, u.Reads p → v.Reads q → u.IsMachine → v.IsMachine →
    Arrays.difference u v = .ok ⟨[2], [p.1 - q.1, p.2 - q.2]⟩
  filling : ∀ {v : Value R} {p : R × R}, v.Reads p → Arrays.filling [2] v = .ok [p.1, p.2]
  zip_column : ∀ (f : R → R → R) (xs ys : List R), Arrays.zip? f ⟨[xs.length, 1], xs⟩ ⟨[ys.length], ys⟩ =
    some ⟨[xs.length, ys.length], xs.flatMap fun x => ys.map (f x)⟩
  zip_rows : ∀ (f : R → R → R) {n k : Nat} {xs ys : List R}, xs.length = n * k → ys.length = n * k →
    Arrays.zip? f ⟨[n, k], xs⟩ ⟨[n, k], ys⟩ = some ⟨[n, k], List.zipWith f xs ys⟩
  product : ∀ {n k m : Nat} {xs ys : List R}, xs.length = n * k → ys.length = k * m →
    ∃ zs, Arrays.product? ⟨[n, k], xs⟩ ⟨[k, m], ys⟩ = some ⟨[n, m], zs⟩ ∧ zs.length = n * m

/-! ### The standard library -/

omit [Arithmetic R] in
theorem layout?_of_isPair {v : Value R} {a b : Scalar R} (h : IsPair v a b) :
    v.layout? = some ([2], [.number a, .number b]) := by
  rcases h with rfl | rfl <;> rfl

omit [Arithmetic R] in
/-- Pairs in a list are the rows of an array. -/
theorem layout?_list {vs : List (Value R)} {cs : List (Scalar R × Scalar R)} (hne : vs ≠ [])
    (h : List.Forall₂ (fun v c => IsPair v c.1 c.2) vs cs) :
    (Value.list vs).layout? = some ([cs.length, 2], cs.flatMap fun c => [Value.number c.1, .number c.2]) := by
  let part (c : Scalar R × Scalar R) : List Nat × List (Value R) := ([2], [.number c.1, .number c.2])
  have hparts : ∀ {vs : List (Value R)} {cs : List (Scalar R × Scalar R)},
      List.Forall₂ (fun v c => IsPair v c.1 c.2) vs cs → Value.layouts? vs = cs.map (some ∘ part) := by
    intro vs cs h
    induction h with
    | nil => rfl
    | @cons v c vs cs hv _ ih =>
      show v.layout? :: Value.layouts? vs = _
      rw [layout?_of_isPair hv, ih]
      rfl
  have hmapM (cs : List (Scalar R × Scalar R)) : (cs.map (some ∘ part)).mapM id = some (cs.map part) :=
    List.mapM_map.trans List.mapM_pure
  show Value.stacked (Value.layouts? vs) = _
  rw [hparts h]
  cases h with
  | nil => exact absurd rfl hne
  | @cons v c vs cs _ _ =>
    show (do
      let parts ← ((c :: cs).map (some ∘ part)).mapM id
      let shape ← parts.head?.map Prod.fst
      if parts.all (·.1 == shape) then some (parts.length :: shape, parts.flatMap Prod.snd) else none) = _
    rw [hmapM]
    show (if ((c :: cs).map part).all (·.1 == [2]) = true then _ else _) = _
    rw [if_pos (by simp [part])]
    simp [part, List.flatMap_map]

theorem numericCell_of_toReal {a : Scalar R} {x : R} (h : a.toReal = .ok x) (ha : a.IsMachine) :
    (Value.number a).numericCell = .ok x := by
  cases a with
  | real y => exact congrArg (liftArithmetic (R := R)) h
  | int m =>
    show (if Value.isMachineWhole m = true then _ else _) = _
    rw [if_pos (show Value.isMachineWhole m = true from ha)]
    unfold Scalar.toReal at h
    dsimp only at h
    split at h
    · exact congrArg (liftArithmetic (R := R)) h
    · cases h

theorem mapM_cell_pair {a b : Scalar R} {x y : R} (ha : a.toReal = .ok x) (hb : b.toReal = .ok y) :
    [Value.number a, .number b].mapM Value.cell = .ok [x, y] :=
  mapM_eq_ok (.cons (expectReal_of_toReal ha) (.cons (expectReal_of_toReal hb) .nil))

theorem mapM_numericCell_pair {a b : Scalar R} {x y : R} (ha : a.toReal = .ok x) (hb : b.toReal = .ok y)
    (ham : a.IsMachine) (hbm : b.IsMachine) :
    [Value.number a, .number b].mapM Value.numericCell = .ok [x, y] :=
  mapM_eq_ok (.cons (numericCell_of_toReal ha ham) (.cons (numericCell_of_toReal hb hbm) .nil))

namespace Value.Reads

variable {u v : Value R} {p q : R × R}

/-- A position is read as a row of two numbers. -/
theorem ofValue_eq (h : v.Reads p) : Block.ofValue v = .ok ⟨[2], [p.1, p.2]⟩ := by
  obtain ⟨a, b, hv, ha, hb⟩ := h
  unfold Block.ofValue expectLayout
  rw [layout?_of_isPair hv]
  simp only [ok_bind, mapM_cell_pair ha hb]
  rfl

/-- Positions are pairs of numbers, whose cells are read one after the other. -/
theorem exists_cells {vs : List (Value R)} {ps : List (R × R)} (h : List.Forall₂ Value.Reads vs ps) :
    ∃ cs : List (Scalar R × Scalar R), List.Forall₂ (fun v c => IsPair v c.1 c.2) vs cs ∧
      cs.length = ps.length ∧ (cs.flatMap fun c => [Value.number c.1, .number c.2]).mapM Value.cell =
        .ok (ps.flatMap fun p => [p.1, p.2]) := by
  induction h with
  | nil => exact ⟨[], .nil, rfl, rfl⟩
  | @cons v p vs ps hv _ ih =>
    obtain ⟨a, b, hab, ha, hb⟩ := hv
    obtain ⟨cs, hcs, hlength, hcells⟩ := ih
    refine ⟨(a, b) :: cs, .cons hab hcs, congrArg (· + 1) hlength, ?_⟩
    rw [List.flatMap_cons, List.mapM_append, hcells]
    show ([Value.number a, .number b].mapM Value.cell >>= _) = _
    rw [mapM_cell_pair ha hb]
    rfl

/-- Positions in a list are read as rows. -/
theorem ofValue_list {vs : List (Value R)} {ps : List (R × R)} (hne : vs ≠ [])
    (h : List.Forall₂ Value.Reads vs ps) :
    Block.ofValue (.list vs) = .ok ⟨[ps.length, 2], ps.flatMap fun p => [p.1, p.2]⟩ := by
  obtain ⟨cs, hcs, hlength, hcells⟩ := exists_cells h
  unfold Block.ofValue expectLayout
  rw [layout?_list hne hcs, ← hlength]
  simp only [ok_bind, hcells]
  rfl

theorem filling_eq (h : v.Reads p) : Block.filling [2] v = .ok [p.1, p.2] := by
  unfold Block.filling Block.stretched?
  rw [h.ofValue_eq, ok_bind, joinedShape?_self, if_pos rfl, stretchedTo_self rfl]
  rfl

theorem difference_eq (hu : u.Reads p) (hv : v.Reads q) (hum : u.IsMachine) (hvm : v.IsMachine) :
    Block.difference u v = .ok ⟨[2], [p.1 - q.1, p.2 - q.2]⟩ := by
  obtain ⟨a, b, hab, ha, hb⟩ := hu
  obtain ⟨c, d, hcd, hc, hd⟩ := hv
  obtain ⟨ham, hbm⟩ := hum a b hab
  obtain ⟨hcm, hdm⟩ := hvm c d hcd
  unfold Block.difference Value.expectLayout Block.ofNumbers
  rw [layout?_of_isPair hab, layout?_of_isPair hcd]
  simp only [ok_bind, mapM_numericCell_pair ha hb ham hbm, mapM_numericCell_pair hc hd hcm hdm]
  rfl

end Value.Reads

namespace Block

omit [Arithmetic R] in
theorem zip?_column (f : R → R → R) (xs ys : List R) : zip? f ⟨[xs.length, 1], xs⟩ ⟨[ys.length], ys⟩ =
    some ⟨[xs.length, ys.length], xs.flatMap fun x => ys.map (f x)⟩ := by
  have hshape : joinedShape? [xs.length, 1] [ys.length] = some [xs.length, ys.length] := by
    show Option.map _ (joinedSizes? [1, xs.length] [ys.length]) = _
    simp only [joinedSizes?, Option.bind_eq_bind, Option.bind_some]
    -- a row of one cell has the size of the column already
    by_cases h : 1 = ys.length
    · rw [if_pos (.inl h), h]
      rfl
    · by_cases h' : ys.length = 1
      · exact absurd h'.symm h
      · rw [if_neg (not_or.2 ⟨h, h'⟩), if_pos trivial]
        rfl
  unfold zip?
  rw [hshape]
  show some (Block.mk _ _) = _
  rw [stretchedTo_column, stretchedTo_row, zipWith_column_row]

omit [Arithmetic R] in
theorem zip?_rows (f : R → R → R) {n k : Nat} {xs ys : List R} (hxs : xs.length = n * k)
    (hys : ys.length = n * k) : zip? f ⟨[n, k], xs⟩ ⟨[n, k], ys⟩ = some ⟨[n, k], List.zipWith f xs ys⟩ := by
  have hvolume : volume [n, k] = n * k := congrArg (n * ·) (Nat.mul_one k)
  unfold zip?
  rw [joinedShape?_self]
  show some (Block.mk _ _) = _
  rw [stretchedTo_self (hxs.trans hvolume.symm), stretchedTo_self (hys.trans hvolume.symm)]

/-- The product of blocks of two dimensions is that of matrices. -/
theorem product?_eq {n k m : Nat} {xs ys : List R} (hxs : xs.length = n * k) (hys : ys.length = k * m) :
    product? ⟨[n, k], xs⟩ ⟨[k, m], ys⟩ = some ⟨[n, m], matrixProduct n k m xs ys⟩ := by
  show (if k = k then some (Block.mk [n, m] (List.zipWith (matrixProduct n k m)
    (pieces (n * k) 1 xs) (pieces (k * m) 1 ys)).flatten) else none) = _
  rw [if_pos rfl, pieces_of_length hxs, pieces_of_length hys]
  show some (Block.mk [n, m] (matrixProduct n k m xs ys ++ [])) = _
  rw [List.append_nil]

theorem length_matrixProduct (n k m : Nat) (xs ys : List R) : (matrixProduct n k m xs ys).length = n * m := by
  unfold matrixProduct columns
  rw [List.length_flatMap]
  simp [length_pieces]

end Block

/-- The standard library is one such, whatever its numbers are. -/
theorem LawfulArrays.of_standard : letI := Arrays.standard R; LawfulArrays R :=
  letI := Arrays.standard R
  { ofValue := Value.Reads.ofValue_list
    difference := Value.Reads.difference_eq
    filling := Value.Reads.filling_eq
    zip_column := Block.zip?_column
    zip_rows := Block.zip?_rows
    product := fun hxs hys => ⟨_, Block.product?_eq hxs hys, Block.length_matrixProduct ..⟩ }

instance : LawfulArrays Float := .of_standard

end

section

variable {R : Type} [Arithmetic R]

/-! ### Spans -/

/-- Points as positions. -/
def Positions.ofPairs (ps : List (R × R)) : Positions R := .rows 2 (ps.map fun p => [p.1, p.2])

/-- A point is that of a position. -/
def Value.Meets (v : Value R) (p : R × R) : Prop :=
  ∃ a b, IsPair v a b ∧ (Scalar.real p.1).same a = true ∧ (Scalar.real p.2).same b = true

/-- Positions are `n` points, of which the first one is at `start` and the last one at `finish`. -/
def Positions.Spans (s : Positions R) (n : Int) (start finish : Value R) : Prop :=
  ∃ first middle last, s = .ofPairs (first :: (middle ++ [last])) ∧ (middle.length : Int) + 2 = n ∧
    start.Meets first ∧ finish.Meets last

theorem Value.Within.meets {k : Nat} {v : Value R} {p : R × R} (h : v.Within k p) : v.Meets p := by
  obtain ⟨a, b, hv, ha, hb⟩ := h
  exact ⟨a, b, hv, ha.same, hb.same⟩

variable [Arrays R] [LawfulArrays R]

/-- All but the first and the last point are kept. -/
theorem Value.Reads.pinned_eq {u v : Value R} {p q : R × R} (hu : u.Reads p) (hv : v.Reads q) (first : R × R)
    {rest : List (R × R)} (hrest : rest ≠ []) : (Positions.ofPairs (first :: rest)).pinned u v =
      .ok (.ofPairs (p :: (rest.dropLast ++ [q]))) := by
  have hne : rest.map (fun r : R × R => [r.1, r.2]) ≠ [] := fun h => hrest (List.map_eq_nil_iff.1 h)
  have hpinned : Path.pinned u v ((first :: rest).map fun r : R × R => [r.1, r.2]) =
      .ok ((p :: (rest.dropLast ++ [q])).map fun r : R × R => [r.1, r.2]) := by
    show (do
      let first ← Arrays.filling [2] u
      let last ← Arrays.filling [2] v
      return (first :: rest.map fun r : R × R => [r.1, r.2]).dropLast ++ [last]) = _
    rw [LawfulArrays.filling hu, LawfulArrays.filling hv]
    show Except.ok _ = _
    rw [List.dropLast_cons_of_ne_nil hne, List.map_cons, List.map_append, List.map_dropLast]
    rfl
  show (do return Positions.rows 2 (← Path.pinned u v ((first :: rest).map fun r : R × R => [r.1, r.2]))) = _
  rw [hpinned]
  rfl

namespace Value.Within

variable {k : Nat} {u v : Value R} {p q : R × R}

theorem exists_chord (hu : u.Within k p) (hv : v.Within k q) :
    ∃ s, Positions.chord u v = .ok s ∧ s.Spans 2 u v := by
  refine ⟨.ofPairs [p, q], ?_, p, [], q, rfl, rfl, hu.meets, hv.meets⟩
  unfold Positions.chord
  rw [LawfulArrays.ofValue (List.cons_ne_nil _ _) (.cons hu.reads (.cons hv.reads .nil))]
  rfl

/-- Two points or more are pinned to any ends. -/
theorem exists_pinned (hu : u.Within k p) (hv : v.Within k q) {ps : List (R × R)} (hps : 2 ≤ ps.length) :
    ∃ s, (Positions.ofPairs ps).pinned u v = .ok s ∧ s.Spans ps.length u v := by
  obtain ⟨first, rest, rfl⟩ := List.exists_cons_of_length_pos (by omega : 0 < ps.length)
  rw [List.length_cons] at hps ⊢
  have hrest : rest ≠ [] := List.length_pos_iff.1 (by omega)
  refine ⟨.ofPairs (p :: (rest.dropLast ++ [q])), hu.reads.pinned_eq hv.reads first hrest, p, rest.dropLast, q,
    rfl, ?_, hu.meets, hv.meets⟩
  rw [List.length_dropLast]
  push_cast
  omega

end Value.Within

end

end FeynmanTikz
