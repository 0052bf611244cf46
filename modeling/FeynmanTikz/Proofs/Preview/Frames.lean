/-
The frame of a preview.

An axis ends at the margin around everything that is to be seen along it.  What is drawn occupies numbers that
fit into `R`, so their smallest and their largest one can be moved apart.

* `Smallest`, `Largest`: one of some numbers that none of the others goes before,
* `foldl_first`: what is left of some things when the one that goes before the other is kept,
* `Frames`: the limits of an axis, `exists_frame`: numbers that fit have limits,
* `Drawing.concat_eq`: drawings one after the other, `exists_limits`: the limits around all of them.

Design notes.
* A coordinate that a sine takes part in may be undefined.  It is less than no number and no number is less
  than it, so a smallest number is one that no other is less than.
-/
import FeynmanTikz.Preview
import FeynmanTikz.Proofs.Diagram.Placement
import FeynmanTikz.Proofs.Stroke.Points

namespace FeynmanTikz

variable {R : Type} [Arithmetic R]

/-! ### The first of some things -/

omit [Arithmetic R] in
theorem Reading.lt_trans {a b c : Reading} (hab : a.lt b = true) (hbc : b.lt c = true) : a.lt c = true := by
  cases a <;> cases b <;> cases c <;> simp_all [Reading.lt]
  exact hab.trans hbc

omit [Arithmetic R] in
theorem Reading.lt_irrefl (a : Reading) : a.lt a = false := by
  cases a <;> simp [Reading.lt]

/-- What goes through some things from the left and keeps the one that goes before the others, ends with one
of them, and no other goes before it. -/
theorem foldl_first {α : Type} (before : α → α → Bool)
    (htrans : ∀ {a b c}, before a b = true → before b c = true → before a c = true)
    (hirrefl : ∀ a, before a a = false) (a : α) (as : List α) :
    as.foldl (fun x y => if before y x then y else x) a ∈ a :: as ∧
      ∀ b ∈ a :: as, before b (as.foldl (fun x y => if before y x then y else x) a) = false := by
  induction as using List.reverseRecOn with
  | nil => simp [hirrefl]
  | append_singleton as c ih =>
    obtain ⟨hmem, hnone⟩ := ih
    rw [List.foldl_append, List.foldl_cons, List.foldl_nil, ← List.cons_append]
    generalize as.foldl (fun x y => if before y x then y else x) a = x at hmem hnone ⊢
    have hlast {z : α} (hz : ∀ b ∈ a :: as, before b z = false) (hc : before c z = false) :
        ∀ b ∈ a :: as ++ [c], before b z = false := fun b hb =>
      (List.mem_append.1 hb).elim (hz b) fun hb => (List.mem_singleton.1 hb).symm ▸ hc
    by_cases hc : before c x = true
    · rw [if_pos hc]
      refine ⟨List.mem_append_right _ List.mem_cons_self, hlast (fun b hb => ?_) (hirrefl c)⟩
      -- What goes before the new one also goes before the old one.
      exact Bool.eq_false_iff.2 fun hbc => Bool.eq_false_iff.1 (hnone b hb) (htrans hbc hc)
    · rw [if_neg hc]
      exact ⟨List.mem_append_left _ hmem, hlast hnone (Bool.eq_false_iff.2 hc)⟩

/-! ### Frames -/

/-- One of some numbers; none of them is less. -/
def Smallest (vs : List (Value R)) (a : Scalar R) : Prop :=
  Value.number a ∈ vs ∧ ∀ b, Value.number b ∈ vs → b.lt a = false

/-- One of some numbers; it is less than none of them. -/
def Largest (vs : List (Value R)) (a : Scalar R) : Prop :=
  Value.number a ∈ vs ∧ ∀ b, Value.number b ∈ vs → a.lt b = false

/-- The limits of an axis along which some numbers are to be seen. -/
def Frames (vs : List (Value R)) (low high : Value R) : Prop :=
  ∃ a b x y, Smallest vs a ∧ Largest vs b ∧ a.toReal = .ok x ∧ b.toReal = .ok y ∧
    low = .real (x - Arithmetic.ofInt 20) ∧ high = .real (y + Arithmetic.ofInt 20)

theorem min_number (a b : Scalar R) :
    Value.min (.number a) (.number b) = .ok (.number (if b.lt a then b else a)) := by
  show Except.ok (if b.lt a = true then _ else _) = _
  split <;> rfl

theorem max_number (a b : Scalar R) :
    Value.max (.number a) (.number b) = .ok (.number (if a.lt b then b else a)) := by
  show Except.ok (if a.lt b = true then _ else _) = _
  split <;> rfl

omit [Arithmetic R] in
theorem foldlM_number {f : Value R → Value R → Except (Fault R) (Value R)} {g : Scalar R → Scalar R → Scalar R}
    (h : ∀ a b, f (.number a) (.number b) = .ok (.number (g a b))) : ∀ (as : List (Scalar R)) (a : Scalar R),
      (as.map Value.number).foldlM f (.number a) = .ok (.number (as.foldl g a))
  | [], _ => rfl
  | b :: as, a => by
    rw [List.map_cons, List.foldlM_cons, h, ok_bind]
    exact foldlM_number h as (g a b)

/-- The margin on either side. -/
theorem margin_real {a : Scalar R} {x : R} (h : a.toReal = .ok x) :
    (Computed.of (.number a) - Computed.of margin : Computed R) = Computed.of (.real (x - Arithmetic.ofInt 20)) ∧
      (Computed.of (.number a) + Computed.of margin : Computed R) =
        Computed.of (.real (x + Arithmetic.ofInt 20)) := by
  have hcombine (onInt : Int → Int → Int) (onReal : R → R → R) :
      Scalar.combine onInt onReal a (.real (Arithmetic.ofInt 20)) =
        .ok (.real (onReal x (Arithmetic.ofInt 20))) := by
    have hmargin : (Scalar.real (Arithmetic.ofInt 20) : Scalar R).toReal = .ok (Arithmetic.ofInt 20) := rfl
    rcases Scalar.combine_eq_or h hmargin onInt onReal with hreal | ⟨_, _, -, ⟨⟩, -⟩
    exact hreal
  constructor
  · show Value.sub (.number a) (.number (.real (Arithmetic.ofInt 20))) = _
    rw [Value.sub_number, show Scalar.sub a (.real (Arithmetic.ofInt 20)) = _ from hcombine _ _]
    rfl
  · show Value.add (.number a) (.number (.real (Arithmetic.ofInt 20))) = _
    rw [Value.add_number, show Scalar.add a (.real (Arithmetic.ofInt 20)) = _ from hcombine _ _]
    rfl

/-- A number that fits. -/
def Value.IsFit (v : Value R) : Prop := ∃ a : Scalar R, v = .number a ∧ a.Fits

/-- Numbers that fit have a frame. -/
theorem exists_frame {v : Value R} {vs : List (Value R)} (h : ∀ u ∈ v :: vs, u.IsFit) :
    ∃ low high, frame v vs = .ok (low, high) ∧ Frames (v :: vs) low high := by
  obtain ⟨_ | ⟨a, as⟩, hforall⟩ := exists_forall₂ h
  · cases hforall
  obtain ⟨⟨rfl, ha⟩, hrest⟩ := List.forall₂_cons.1 hforall
  obtain rfl : vs = as.map Value.number := by
    have heq := List.forall₂_map_right_iff.2 (hrest.imp fun _ _ hb => hb.1)
    rwa [List.forall₂_eq_eq_eq] at heq
  have hfits {b : Scalar R} (hb : b ∈ a :: as) : b.Fits := by
    obtain ⟨c, hc, hfit⟩ := h (.number b) (List.mem_map_of_mem (f := Value.number) hb)
    cases hc
    exact hfit
  have hmem {b : Scalar R} : Value.number b ∈ Value.number a :: as.map Value.number ↔ b ∈ a :: as := by
    rw [← List.map_cons, List.mem_map]
    constructor
    · rintro ⟨c, hc, ⟨⟩⟩
      exact hc
    · exact fun hb => ⟨b, hb, rfl⟩
  obtain ⟨hleast, hnone⟩ := foldl_first Scalar.lt Reading.lt_trans (fun b => b.reading.lt_irrefl) a as
  obtain ⟨hgreatest, hall⟩ := foldl_first (fun b c : Scalar R => c.lt b)
    (fun hab hbc => Reading.lt_trans hbc hab) (fun b => b.reading.lt_irrefl) a as
  obtain ⟨x, hx⟩ := hfits hleast
  obtain ⟨y, hy⟩ := hfits hgreatest
  refine ⟨_, _, ?_, _, _, x, y, ⟨hmem.2 hleast, fun b hb => hnone b (hmem.1 hb)⟩,
    ⟨hmem.2 hgreatest, fun b hb => hall b (hmem.1 hb)⟩, hx, hy, rfl, rfl⟩
  unfold frame
  rw [foldlM_number min_number, foldlM_number max_number]
  refine bind_eq_ok.2 ⟨_, rfl, bind_eq_ok.2 ⟨_, (margin_real hx).1, bind_eq_ok.2 ⟨_, rfl,
    bind_eq_ok.2 ⟨_, (margin_real hy).2, rfl⟩⟩⟩⟩

/-! ### Limits -/

/-- A drawing occupies numbers that fit, along both axes. -/
structure Drawing.IsFit (g : Drawing R) : Prop where
  xs : g.xs ≠ [] ∧ ∀ v ∈ g.xs, v.IsFit
  ys : g.ys ≠ [] ∧ ∀ v ∈ g.ys, v.IsFit

omit [Arithmetic R] in
/-- One drawing after the other has all their calls and all their coordinates. -/
theorem Drawing.concat_eq (gs : List (Drawing R)) :
    concat gs = ⟨gs.flatMap calls, gs.flatMap xs, gs.flatMap ys⟩ := by
  have key : ∀ (gs : List (Drawing R)) (a : Drawing R), gs.foldl append a =
      ⟨a.calls ++ gs.flatMap calls, a.xs ++ gs.flatMap xs, a.ys ++ gs.flatMap ys⟩ := by
    intro gs
    induction gs with
    | nil => simp
    | cons g gs ih =>
      intro a
      rw [List.foldl_cons, ih]
      simp [append]
  exact key gs {}

/-- Drawings of numbers that fit have limits, unless there are none. -/
theorem exists_limits {gs : List (Drawing R)} (h : ∀ g ∈ gs, g.IsFit) :
    ∃ limits, (Drawing.concat gs).limits = .ok limits ∧ ((gs = [] ∧ limits = []) ∨
      (gs ≠ [] ∧ ∃ left right top bottom, limits = [.xlim left right, .ylim bottom top] ∧
        Frames (gs.flatMap Drawing.xs) left right ∧ Frames (gs.flatMap Drawing.ys) top bottom)) := by
  rw [Drawing.concat_eq]
  cases gs with
  | nil => exact ⟨[], rfl, .inl ⟨rfl, rfl⟩⟩
  | cons g gs =>
    have hframe (f : Drawing R → List (Value R)) (hf : ∀ k ∈ g :: gs, f k ≠ [] ∧ ∀ v ∈ f k, v.IsFit) :
        ∃ v vs, (g :: gs).flatMap f = v :: vs ∧
          ∃ low high, frame v vs = .ok (low, high) ∧ Frames (v :: vs) low high := by
      obtain ⟨v, vs, hvs⟩ := List.exists_cons_of_ne_nil (hf g List.mem_cons_self).1
      refine ⟨v, vs ++ gs.flatMap f, by rw [List.flatMap_cons, hvs, List.cons_append], exists_frame ?_⟩
      rw [← List.cons_append, ← hvs, ← List.flatMap_cons]
      intro u hu
      obtain ⟨k, hk, hu⟩ := List.mem_flatMap.1 hu
      exact (hf k hk).2 u hu
    obtain ⟨x, xs, hxs, left, right, hx, hleft⟩ := hframe Drawing.xs fun k hk => (h k hk).xs
    obtain ⟨y, ys, hys, top, bottom, hy, htop⟩ := hframe Drawing.ys fun k hk => (h k hk).ys
    rw [hxs, hys]
    refine ⟨_, ?_, .inr ⟨List.cons_ne_nil _ _, left, right, top, bottom, rfl, hleft, htop⟩⟩
    exact bind_eq_ok.2 ⟨_, hx, bind_eq_ok.2 ⟨_, hy, rfl⟩⟩

end FeynmanTikz
