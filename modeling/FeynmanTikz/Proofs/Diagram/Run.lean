/-
Whole runs of mutations.

A `Request` is a call of one of the ten mutations with any arguments at all.  A run performs some
requests one after the other, those that are refused included, on a diagram that is empty or has
been read from a text (`IsStart`).

* `Orderly.perform`: what one request does to ids,
* `Orderly.run`: what a run does to them, by induction on the requests,
* `IsStart.orderly`: where a run starts, everything is in order,
* `run_orderly`: the state of ids and references after every run, and the ids handed out in it.
-/
import FeynmanTikz.Number.Double
import FeynmanTikz.Proofs.Diagram.Preservation
import FeynmanTikz.Tikz.Document

namespace FeynmanTikz

open Edit

/-- A call of a mutation. -/
inductive Request (R : Type) where
  | createPoint (position radius : Value R)
  | createEdge (kind start finish control style : Value R)
  | createEllipse (center rx ry color strokeWidth : Value R)
  | createLabel (position text binding : Value R)
  | delete (id : Value R)
  | updateEdge (id : Value R) (changes : List (String × Value R))
  | moveLabel (id position : Value R)
  | bindLabel (id edge anchor offset : Value R)
  | unbindLabel (id : Value R)
  | clear

namespace Diagram

variable {R : Type} [Arithmetic R]

/-- Performs a request.  A creation answers with the new element, and nothing else does. -/
def perform : Request R → Mutation R (Option (Element R))
  | .createPoint position radius => do return some (.point (← createPoint position radius))
  | .createEdge kind start finish control style => do
    return some (.edge (← createEdge kind start finish control style))
  | .createEllipse center rx ry color strokeWidth => do
    return some (.ellipse (← createEllipse center rx ry color strokeWidth))
  | .createLabel position text binding => do
    return some (.label (← createLabel position text binding))
  | .delete id => do
    let _ ← delete id
    return none
  | .updateEdge id changes => do
    let _ ← updateEdge id changes
    return none
  | .moveLabel id position => do
    let _ ← moveLabel id position
    return none
  | .bindLabel id edge anchor offset => do
    let _ ← bindLabel id edge anchor offset
    return none
  | .unbindLabel id => do
    let _ ← unbindLabel id
    return none
  | .clear => do
    clear
    return none

/-- The diagram after a request, whether it has been refused or not. -/
def after (d : Diagram R) (q : Request R) : Diagram R := ((perform q).outcome d).2

/-- The element a request creates, if it creates one. -/
def created? (d : Diagram R) (q : Request R) : Option (Element R) :=
  match ((perform q).outcome d).1 with
  | .ok e => e
  | .error _ => none

/-- The diagram after some requests. -/
def run (d : Diagram R) : List (Request R) → Diagram R
  | [] => d
  | q :: qs => run (d.after q) qs

/-- The ids that are handed out in a run, in order. -/
def handedOut (d : Diagram R) : List (Request R) → List (Value R)
  | [] => []
  | q :: qs => (d.created? q).toList.map Element.id ++ handedOut (d.after q) qs

/-! ### One request -/

theorem after_of_creates {α : Type} {make : α → Element R} {m : Mutation R α} {d : Diagram R}
    {n : Int} {q : Request R} (hq : perform q = do return some (make (← m)))
    (h : d.Orderly n) (hm : Creates make m d n) :
    (∃ e, d.created? q = some e ∧ e.id = .int n ∧ (d.after q).Orderly (n + 1)) ∨
      (d.created? q = none ∧ (d.after q).Orderly n) := by
  unfold created? after
  rw [hq]
  rcases hm with ⟨a, ha, hi, ho⟩ | ⟨e, he⟩
  · have hout : m.outcome d = (.ok a, (m.outcome d).2) := Prod.ext ha rfl
    rw [outcome_bind_ok hout]
    exact .inl ⟨make a, rfl, hi, ho⟩
  · rw [outcome_bind_error he]
    exact .inr ⟨rfl, h⟩

theorem after_of_keeps {α : Type} {m : Mutation R α} {d : Diagram R} {n : Int} {q : Request R}
    (hq : perform q = do
      let _ ← m
      return none)
    (h : d.Orderly n) (hm : Keeps (fun d : Diagram R => d.Orderly n) m) :
    d.created? q = none ∧ (d.after q).Orderly n := by
  have hk := hm d h
  unfold created? after
  rw [hq, outcome_bind]
  rcases hr : m.outcome d with ⟨e | a, d'⟩
  · rw [hr] at hk
    exact ⟨rfl, hk⟩
  · rw [hr] at hk
    exact ⟨rfl, hk⟩

/-- A request either creates an element under the next id and counts it up by one, or creates
nothing and leaves the next id alone. -/
theorem Orderly.perform {d : Diagram R} {n : Int} (h : d.Orderly n) (q : Request R) :
    (∃ e, d.created? q = some e ∧ e.id = .int n ∧ (d.after q).Orderly (n + 1)) ∨
      (d.created? q = none ∧ (d.after q).Orderly n) := by
  cases q with
  | createPoint position radius =>
    exact after_of_creates rfl h (h.creates_point position radius)
  | createEdge kind start finish control style =>
    exact after_of_creates rfl h (h.creates_edge kind start finish control style)
  | createEllipse center rx ry color strokeWidth =>
    exact after_of_creates rfl h (h.creates_ellipse center rx ry color strokeWidth)
  | createLabel position text binding =>
    exact after_of_creates rfl h (h.creates_label position text binding)
  | delete id => exact .inr (after_of_keeps rfl h (Orderly.keeps_delete n id))
  | updateEdge id changes => exact .inr (after_of_keeps rfl h (Orderly.keeps_updateEdge n id changes))
  | moveLabel id position => exact .inr (after_of_keeps rfl h (Orderly.keeps_moveLabel n id position))
  | bindLabel id edge anchor offset =>
    exact .inr (after_of_keeps rfl h (Orderly.keeps_bindLabel n id edge anchor offset))
  | unbindLabel id => exact .inr (after_of_keeps rfl h (Orderly.keeps_unbindLabel n id))
  | clear => exact .inr (after_of_keeps rfl h (Orderly.keeps_clear n))

/-! ### Runs -/

/-- A run hands out consecutive ids. -/
theorem Orderly.run : ∀ {d : Diagram R} {n : Int} (_ : d.Orderly n) (qs : List (Request R)),
    (d.run qs).Orderly (n + (d.handedOut qs).length) ∧
      d.handedOut qs = (List.range (d.handedOut qs).length).map fun i => .int (n + i)
  | d, n, h, [] => ⟨by simpa [Diagram.run, handedOut] using h, rfl⟩
  | d, n, h, q :: qs => by
    rcases h.perform q with ⟨e, he, hi, ho⟩ | ⟨hn, ho⟩
    · -- The first request hands out `n`, so the others count on from `n + 1`.
      obtain ⟨hr, hids⟩ := ho.run qs
      have hcons : d.handedOut (q :: qs) = .int n :: (d.after q).handedOut qs := by
        simp [handedOut, he, hi]
      rw [hcons, List.length_cons]
      refine ⟨?_, ?_⟩
      · rw [show n + ((((d.after q).handedOut qs).length + 1 : Nat) : Int) =
          n + 1 + (((d.after q).handedOut qs).length : Nat) by omega]
        exact hr
      · rw [List.range_succ_eq_map, List.map_cons, List.map_map, List.cons.injEq]
        refine ⟨by simp, hids.trans (List.map_congr_left fun i _ => ?_)⟩
        show (Value.int (n + 1 + i) : Value R) = .int (n + (i + 1 : Nat))
        rw [int_inj]
        omega
    · have hcons : d.handedOut (q :: qs) = (d.after q).handedOut qs := by
        simp [handedOut, hn]
      rw [hcons]
      exact ho.run qs

/-! ### Where a run starts -/

/-- Whether ids and references are in order, whatever the next id is. -/
def IsOrderly (d : Diagram R) : Prop := ∃ n, d.Orderly n

theorem orderly_empty : (empty : Diagram R).Orderly 1 :=
  orderly_of_empty rfl fun s => by cases s <;> rfl

theorem Creates.isOrderly {α : Type} {make : α → Element R} {m : Mutation R α} {d : Diagram R}
    {n : Int} (h : d.Orderly n) (hm : Creates make m d n) : IsOrderly (m.outcome d).2 := by
  rcases hm with ⟨a, -, -, ho⟩ | ⟨e, he⟩
  · exact ⟨n + 1, ho⟩
  · rw [he]
    exact ⟨n, h⟩

omit [Arithmetic R] in
theorem outcome_forStatement {α : Type} (s : Statement R) (m : Mutation R α) (d : Diagram R) :
    (forStatement s m).outcome d =
      (((m.outcome d).1.mapError (atStatement s.place)).map fun _ => (), (m.outcome d).2) := rfl

theorem keeps_addStatement (codec : Given R (Codec R)) (wanted : String) (s : Statement R) :
    Keeps IsOrderly (addStatement codec wanted s) := by
  intro d h
  obtain ⟨n, h⟩ := h
  unfold addStatement
  split
  · exact ⟨n, h⟩
  · cases s.body with
    | point position radius =>
      rw [outcome_forStatement]
      exact (h.creates_point position radius).isOrderly h
    | edge start finish control options =>
      rw [outcome_forStatement, outcome_liftLogged_bind]
      rcases (edgeStyle codec options s.comment).result with e | style
      · exact ⟨n, h⟩
      · exact (h.creates_edge _ start finish _ style).isOrderly h
    | ellipse center rx ry options =>
      rw [outcome_forStatement, outcome_liftLogged_bind]
      rcases (DrawOptions.read options codec).result with e | o
      · exact ⟨n, h⟩
      · exact (h.creates_ellipse center rx ry _ _).isOrderly h
    | label position text =>
      rw [outcome_forStatement]
      exact (h.creates_label position _ _).isOrderly h
    | beginPicture | endPicture => exact ⟨n, h⟩

theorem keeps_addStatements (codec : Given R (Codec R)) (wanted : String) :
    ∀ ss : List (Statement R), Keeps IsOrderly (addStatements codec wanted ss)
  | [] => Keeps.pure ()
  | s :: ss => (keeps_addStatement codec wanted s).bind fun _ => keeps_addStatements codec wanted ss

/-- The largest of some whole numbers is one of them. -/
theorem largest_int : ∀ (is : List Int) (i : Int), ∃ j ∈ i :: is,
    largest (.int i : Value R) (is.map Value.int) = .ok (Value.int j : Value R)
  | [], i => ⟨i, List.mem_cons_self, rfl⟩
  | k :: is, i => by
    have hl : (Value.int i : Value R).less? (.int k) = some ((Scalar.int i : Scalar R).lt (.int k)) := by
      simp [Value.less?, Value.int, Value.asNumber?]
    rw [List.map_cons, largest, hl]
    cases (Scalar.int i : Scalar R).lt (.int k)
    · obtain ⟨j, hj, h⟩ := largest_int is i
      refine ⟨j, ?_, h⟩
      rcases List.mem_cons.1 hj with rfl | hj
      · exact List.mem_cons_self
      · exact List.mem_cons_of_mem _ (List.mem_cons_of_mem _ hj)
    · obtain ⟨j, hj, h⟩ := largest_int is k
      exact ⟨j, List.mem_cons_of_mem _ hj, h⟩

/-- The largest id of an orderly diagram is a whole number, and below the next id if there is an
element. -/
theorem Orderly.maxId {d : Diagram R} {n : Int} (h : d.Orderly n) :
    ∃ m, d.maxId = .ok (.int m) ∧ (d.elements ≠ [] → m < n) := by
  obtain ⟨is, his, -, hlt⟩ := h.exists_ids
  unfold Diagram.maxId
  rw [his]
  cases is with
  | nil => exact ⟨0, rfl, fun hne => absurd (List.map_eq_nil_iff.1 his) hne⟩
  | cons i is =>
    obtain ⟨m, hm, hmax⟩ := largest_int (R := R) is i
    exact ⟨m, hmax, fun _ => hlt m hm⟩

theorem Orderly.of_le {d : Diagram R} {n m : Int} (h : d.Orderly n) (hnm : n ≤ m) :
    ({ d with next := .int m } : Diagram R).Orderly m := by
  have hs (s : Shelf) : ({ d with next := .int m } : Diagram R).shelf s = d.shelf s := by
    cases s <;> rfl
  refine ⟨rfl, ?_, ?_, ?_, h.live⟩
  · intro s
    rw [hs s]
    exact h.own s
  · intro s
    rw [hs s]
    obtain ⟨is, hi, hr, hb⟩ := h.rising s
    exact ⟨is, hi, hr, fun i hi => Int.lt_of_lt_of_le (hb i hi) hnm⟩
  · intro s t i
    rw [hs s, hs t]
    exact h.apart s t i

/-- Reserving ids that may be in use already lets the next id only grow. -/
theorem Orderly.reserve {d : Diagram R} {n : Int} (h : d.Orderly n) (m : Int) :
    IsOrderly (d.reserve (.int m)) := by
  unfold Diagram.reserve
  rw [h.next_eq]
  show IsOrderly ({ d with next :=
    if ((Scalar.int n : Scalar R).lt (.int (m + 1))) = true then .int (m + 1) else .int n } :
      Diagram R)
  split
  · rename_i hlt
    have hlt : ((n : Rat) < ((m + 1 : Int) : Rat)) := by
      simpa [Scalar.lt, Scalar.reading, Reading.ofInt] using hlt
    rw [Rat.intCast_lt_intCast] at hlt
    exact ⟨m + 1, h.of_le (Int.le_of_lt hlt)⟩
  · exact ⟨n, h.of_le (Int.le_refl n)⟩

/-- Ids that are all below the next one need not be reserved. -/
theorem reserve_of_lt {d : Diagram R} {n m : Int} (hn : d.next = .int n) (hm : m < n) :
    d.reserve (.int m) = d := by
  have hmax : (Scalar.int n : Scalar R).max (Scalar.int m).succ = .int n := by
    show (if ((Scalar.int n : Scalar R).lt (.int (m + 1))) = true then Scalar.int (m + 1) else .int n) = _
    refine if_neg fun hlt => ?_
    have hlt : ((n : Rat) < ((m + 1 : Int) : Rat)) := by
      simpa [Scalar.lt, Scalar.reading, Reading.ofInt] using hlt
    rw [Rat.intCast_lt_intCast] at hlt
    omega
  unfold Diagram.reserve
  rw [hn, hmax, ← hn]

/-- What is built from statements is the result of an edit that starts from the empty diagram. -/
theorem result_ofStatements (codec : Given R (Codec R)) (ss : List (Statement R)) :
    (ofStatements codec ss).result = ((do
      addStatements codec "point" ss
      addStatements codec "edge" ss
      addStatements codec "ellipse" ss
      addStatements codec "label" ss
      let d ← Edit.current
      let last ← (d.maxId : Except (Fault R) (Value R))
      Edit.put (d.reserve (← (last.expectNumber : Except (Fault R) (Scalar R))))
      Edit.current : Mutation R (Diagram R)).outcome empty).1 := rfl

/-- Elements are added kind by kind; then all ids up to the largest are reserved. -/
theorem ofStatements_eq_ok {codec : Given R (Codec R)} {ss : List (Statement R)} {d : Diagram R} :
    (ofStatements codec ss).result = .ok d ↔ ∃ d₁ d₂ d₃ d₄ last x,
      (addStatements codec "point" ss).outcome empty = (.ok (), d₁) ∧
      (addStatements codec "edge" ss).outcome d₁ = (.ok (), d₂) ∧
      (addStatements codec "ellipse" ss).outcome d₂ = (.ok (), d₃) ∧
      (addStatements codec "label" ss).outcome d₃ = (.ok (), d₄) ∧
      d₄.maxId = .ok last ∧ last.expectNumber = .ok x ∧ d = d₄.reserve x := by
  -- What is built is the result of an edit that starts from the empty diagram.
  have hout (m : Mutation R (Diagram R)) (d' : Diagram R) :
      (m d').1.result = .ok d ↔ ∃ t, m.outcome d' = (.ok d, t) :=
    ⟨fun h => ⟨_, Prod.ext h rfl⟩, fun ⟨t, h⟩ => congrArg Prod.fst h⟩
  unfold ofStatements
  rw [hout]
  simp only [outcome_bind_eq_ok, outcome_current, outcome_liftExcept, outcome_put, Prod.mk.injEq,
    Except.ok.injEq]
  constructor
  · rintro ⟨t, ⟨⟩, d₁, h₁, ⟨⟩, d₂, h₂, ⟨⟩, d₃, h₃, ⟨⟩, d₄, h₄, _, _, ⟨rfl, rfl⟩, last, _, ⟨hl, rfl⟩, x, _,
      ⟨hx, rfl⟩, -, _, ⟨-, rfl⟩, rfl, rfl⟩
    exact ⟨d₁, d₂, d₃, d₄, last, x, h₁, h₂, h₃, h₄, hl, hx, rfl⟩
  · rintro ⟨d₁, d₂, d₃, d₄, last, x, h₁, h₂, h₃, h₄, hl, hx, rfl⟩
    exact ⟨_, (), d₁, h₁, (), d₂, h₂, (), d₃, h₃, (), d₄, h₄, _, _, ⟨rfl, rfl⟩, last, _, ⟨hl, rfl⟩, x,
      _, ⟨hx, rfl⟩, (), _, ⟨trivial, rfl⟩, rfl, rfl⟩

/-- What the passes over the statements keep holds of the diagram in which the ids are reserved. -/
theorem of_ofStatements {codec : Given R (Codec R)} {ss : List (Statement R)} {d : Diagram R}
    {P : Diagram R → Prop} (hP : ∀ wanted, Keeps P (addStatements codec wanted ss)) (hempty : P empty)
    (h : (ofStatements codec ss).result = .ok d) : ∃ t last x, P t ∧ t.maxId = .ok last ∧
      last.expectNumber = .ok x ∧ d = t.reserve x := by
  obtain ⟨d₁, d₂, d₃, d₄, last, x, h₁, h₂, h₃, h₄, hl, hx, rfl⟩ := ofStatements_eq_ok.1 h
  have step {wanted : String} {s t : Diagram R}
      (hr : (addStatements codec wanted ss).outcome s = (.ok (), t)) (hs : P s) : P t := by
    have hk := hP wanted s hs
    rwa [hr] at hk
  exact ⟨d₄, last, x, step h₄ (step h₃ (step h₂ (step h₁ hempty))), hl, hx, rfl⟩

theorem isOrderly_ofStatements {codec : Given R (Codec R)} {ss : List (Statement R)}
    {d : Diagram R} (h : (ofStatements codec ss).result = .ok d) : d.IsOrderly := by
  obtain ⟨t, last, x, ⟨n, hn⟩, hl, hx, rfl⟩ :=
    of_ofStatements (fun wanted => keeps_addStatements codec wanted ss) ⟨1, orderly_empty⟩ h
  obtain ⟨m, hm, -⟩ := hn.maxId
  rw [hm] at hl
  cases hl
  cases hx
  exact hn.reserve m

/-- A diagram in which a run starts: an empty one, or one that has been read from a text. -/
def IsStart (d : Diagram R) : Prop :=
  d = empty ∨ ∃ codec text, (ofText codec text).result = .ok d

theorem IsStart.isOrderly {d : Diagram R} (h : d.IsStart) : d.IsOrderly := by
  rcases h with rfl | ⟨codec, text, h⟩
  · exact ⟨1, orderly_empty⟩
  · simp only [ofText, Logged.result_bind, bind_eq_ok] at h
    obtain ⟨ss, -, d', hd, -, -, h⟩ := h
    cases h
    exact isOrderly_ofStatements hd

/-! ### Ids and references in every run -/

/-- Whatever is requested, and whether it is refused or not: ids and references are in order, the
ids handed out are consecutive, none of them has been in use or is handed out again, and the next
id changes only where an element is created under it. -/
theorem run_orderly {start : Diagram R} (hs : start.IsStart) :
    ∃ n : Int, start.next = .int n ∧ ∀ qs : List (Request R),
      (start.run qs).Orderly (n + (start.handedOut qs).length) ∧
      ((start.run qs).elements.map Element.id).Nodup ∧
      start.handedOut qs = (List.range (start.handedOut qs).length).map (fun i => .int (n + i)) ∧
      (start.handedOut qs).Nodup ∧
      (∀ e ∈ start.elements, e.id ∉ start.handedOut qs) ∧
      ∀ q, (∃ e, (start.run qs).created? q = some e ∧ e.id = .number (start.run qs).next ∧
          ((start.run qs).after q).next = (start.run qs).next.succ) ∨
        ((start.run qs).created? q = none ∧ ((start.run qs).after q).next = (start.run qs).next) := by
  obtain ⟨n, hn⟩ := hs.isOrderly
  refine ⟨n, hn.next_eq, fun qs => ?_⟩
  obtain ⟨ho, hids⟩ := hn.run qs
  refine ⟨ho, ho.nodup_ids, hids, ?_, ?_, fun q => ?_⟩
  · rw [hids]
    refine List.Pairwise.map _ (fun i j hij h => hij ?_) List.nodup_range
    rw [int_inj] at h
    omega
  · intro e he hm
    obtain ⟨i, hi, hid⟩ := hn.id_lt he
    rw [hids] at hm
    obtain ⟨j, -, hj⟩ := List.mem_map.1 hm
    rw [hid, int_inj] at hj
    omega
  · rcases ho.perform q with ⟨e, he, hi, ho'⟩ | ⟨hc, ho'⟩
    · refine .inl ⟨e, he, ?_, ?_⟩
      · rw [hi, ho.next_eq]
        rfl
      · rw [ho'.next_eq, ho.next_eq]
        rfl
    · exact .inr ⟨hc, by rw [ho'.next_eq, ho.next_eq]⟩

theorem run_orderly_double : (empty : Diagram Float).IsStart ∧
    ∃ n : Int, (empty : Diagram Float).next = .int n ∧ ∀ qs : List (Request Float),
      ((empty : Diagram Float).run qs).Orderly (n + ((empty : Diagram Float).handedOut qs).length) ∧
      ((empty : Diagram Float).handedOut qs).Nodup := by
  have hs : (empty : Diagram Float).IsStart := .inl rfl
  obtain ⟨n, hn, hrun⟩ := run_orderly hs
  exact ⟨hs, n, hn, fun qs => ⟨(hrun qs).1, (hrun qs).2.2.2.1⟩⟩

end Diagram

end FeynmanTikz
