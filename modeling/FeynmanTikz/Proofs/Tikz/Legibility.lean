/-
Which diagrams can be written so that they can be read back.

* `Diagram.AllLegible`: every element is legible, and in the collection for its kind,
* `Diagram.allLegible_of_validate`: so it is in a valid diagram whose labels stay on a line and stand
  within bounds,
* `allLegible_ofText`: so it is in every diagram that is read from a text, because the texts of its
  labels come from the lines of that text.
-/
import FeynmanTikz.Proofs.Diagram.Validation
import FeynmanTikz.Proofs.Tikz.Pages

namespace FeynmanTikz

open Edit

variable {R : Type} [Arithmetic R]

/-! ### Labels of a text -/

/-- If the statement is a label, its text stays on a line. -/
def StatementBody.IsTidy (b : StatementBody R) : Prop := ∀ p t, b = .label p t → OneLine t

theorem isTidy_of_readLine {codec : Given R (Codec R)} {n : Nat} {l : List Char} (hl : OneLine l)
    {s : Statement R} (h : readLine codec n l = .ok (.statement s)) : s.body.IsTidy := by
  intro p t hbody
  obtain ⟨ts, hts, h⟩ := bind_eq_ok.1 h
  obtain ⟨o, ho, h⟩ := bind_eq_ok.1 h
  have hstatement : o = some s := by
    rcases o with _ | s'
    · cases ts <;> cases h
    · cases h
      rfl
  rw [hstatement] at ho
  obtain ⟨k, hk, hg, rfl⟩ := label_of_readStatement ho hbody
  obtain ⟨content, hcontent, hmem⟩ := mem_of_group hts hk hg
  intro c hc
  have hc := mem_of_mem_stripMath hc
  rw [hcontent] at hc
  exact hl c (hmem c (by simpa [textOf, Value.plain] using hc))

omit [Arithmetic R] in
theorem body_of_withComment {codec : Given R (Codec R)} {s s' : Statement R} {c : Value R}
    (h : withComment codec s c = .ok s') : s'.body = s.body := by
  obtain ⟨a, -, h⟩ := bind_eq_ok.1 h
  split at h
  · obtain ⟨b, -, h⟩ := bind_eq_ok.1 h
    cases h
    split <;> rfl
  · cases h
    rfl

/-- What holds of the statements on all lines holds of what is read from them. -/
theorem forall_readLines {codec : Given R (Codec R)} {P : StatementBody R → Prop} :
    ∀ {ls : List (List Char)} {n : Nat} {above : Option (Statement R)} {ss : List (Statement R)},
      (∀ l ∈ ls, ∀ n s, readLine codec n l = .ok (.statement s) → P s.body) →
      (∀ s ∈ above, P s.body) → (readLines codec n above ls).result = .ok ss → ∀ s ∈ ss, P s.body
  | [], n, above, ss, _, ha, h => by
    cases h
    simpa using ha
  | l :: ls, n, above, ss, hl, ha, h => by
    have hrest := fun m hm => hl m (List.mem_cons_of_mem _ hm)
    -- A statement waits for a comment on the next line, and only then joins the others.
    have happend {above : Option (Statement R)} {above' : Option (Statement R)}
        (ha : ∀ s ∈ above, P s.body) (ha' : ∀ s ∈ above', P s.body)
        (h : (do
          let ss ← readLines codec (n + 1) above' ls
          return above.toList ++ ss : Logged R (List (Statement R))).result = .ok ss) :
        ∀ s ∈ ss, P s.body := by
      rw [Logged.result_bind] at h
      obtain ⟨us, hus, h⟩ := bind_eq_ok.1 h
      cases h
      intro s hs
      rcases List.mem_append.1 hs with hs | hs
      · exact ha s (by simpa using hs)
      · exact forall_readLines hrest ha' hus s hs
    rw [readLines, Logged.result_bind] at h
    obtain ⟨content, hcontent, h⟩ := bind_eq_ok.1 h
    have hline : readLine codec n l = .ok content := by
      rcases hr : readLine codec n l with e | c
      · rw [hr] at hcontent
        cases hcontent
      · rw [hr] at hcontent
        cases hcontent
        rfl
    cases content with
    | blank => exact happend ha (by simp) h
    | comment c =>
      dsimp only at h
      rw [Logged.result_bind] at h
      obtain ⟨above', habove, h⟩ := bind_eq_ok.1 h
      refine happend (fun s' hs' => ?_) (by simp) h
      cases above with
      | none =>
        cases habove
        cases hs'
      | some s =>
        obtain ⟨s₁, hs₁, h₁⟩ := map_eq_ok.1 ((Logged.result_map _ _).symm.trans habove)
        subst h₁
        cases hs'
        rw [body_of_withComment hs₁]
        exact ha s rfl
    | statement s =>
      dsimp only at h
      rw [Logged.result_bind] at h
      obtain ⟨⟨⟩, -, h⟩ := bind_eq_ok.1 h
      exact happend ha (by rintro _ ⟨⟩; exact hl l List.mem_cons_self n s hline) h

theorem isTidy_of_readDocument {codec : Given R (Codec R)} {text : List Char}
    {ss : List (Statement R)} (h : (readDocument codec text).result = .ok ss) :
    ∀ s ∈ ss, s.body.IsTidy :=
  forall_readLines (fun _ hl _ _ hs => isTidy_of_readLine (oneLine_of_mem_lines hl) hs) (by simp) h

/-! ### Elements of a text -/

/-- Whether an element is valid, and if it is a label, bound to nothing and on one line. -/
def IsReadable : Element R → Prop
  | .point p => p.check = .ok ()
  | .edge e => e.check = .ok ()
  | .ellipse e => e.check = .ok ()
  | .label l => (∃ t, l.text = .text t ∧ IsLabelText t.toList ∧ OneLine t.toList) ∧
      IsPosition l.position ∧ l.binding = .none

theorem IsReadable.isLegible {e : Element R} (h : IsReadable e) (d : Diagram R) : d.IsLegible e := by
  cases e with
  | point | edge | ellipse => exact h
  | label l =>
    obtain ⟨⟨t, ht, htext, hone⟩, hp, hb⟩ := h
    refine ⟨⟨t, ht, htext, fun c hc => hone c (mem_of_mem_stripMath hc)⟩, l.position, ?_, hp⟩
    unfold Diagram.resolve Label.bound?
    rw [hb]
    rfl

/-- Every element is readable, and in the collection for its kind. -/
def AllReadable (d : Diagram R) : Prop :=
  ∀ s, ∀ e ∈ (d.shelf s).values, s.admits e = true ∧ IsReadable e

theorem AllReadable.grown {d : Diagram R} (h : AllReadable d) {s : Shelf} {e : Element R}
    (hs : s.admits e = true) (he : IsReadable e) : AllReadable (d.grown s e) :=
  Diagram.forall_grown (P := fun s e => s.admits e = true ∧ IsReadable e) h ⟨hs, he⟩

theorem keeps_addStatement_readable (codec : Given R (Codec R)) (wanted : String)
    {s : Statement R} (hs : s.body.IsTidy) : Keeps AllReadable (addStatement codec wanted s) := by
  intro d h
  unfold addStatement
  split
  · exact h
  cases hb : s.body with
  | point position radius =>
    rw [Diagram.outcome_forStatement, Diagram.outcome_createPoint]
    refine written_keeps h fun p hp => ?_
    exact h.grown (s := .points) (e := .point p) rfl (Diagram.of_newPoint hp).2
  | edge start finish control options =>
    rw [Diagram.outcome_forStatement, outcome_liftLogged_bind]
    rcases (edgeStyle codec options s.comment).result with e | style
    · exact h
    dsimp only
    rw [Diagram.outcome_createEdge]
    refine written_keeps h fun e he => ?_
    exact h.grown (s := .edges) (e := .edge e) rfl (Diagram.of_newEdge he).2
  | ellipse center rx ry options =>
    rw [Diagram.outcome_forStatement, outcome_liftLogged_bind]
    rcases (DrawOptions.read options codec).result with e | o
    · exact h
    dsimp only
    rw [Diagram.outcome_createEllipse]
    refine written_keeps h fun e he => ?_
    exact h.grown (s := .ellipses) (e := .ellipse e) rfl (Diagram.of_newEllipse he).2
  | label position text =>
    rw [Diagram.outcome_forStatement, Diagram.outcome_createLabel]
    refine written_keeps h fun l hl => ?_
    obtain ⟨l₀, -, hl₀, hbinding, hc, hl⟩ := Diagram.of_newLabel hl
    -- A label that is read is bound to nothing, so it stays where it has been checked.
    have hnone : l₀.binding = .none := (Except.ok.inj hbinding).symm
    obtain rfl : l₀ = l := by
      unfold Diagram.placed at hl
      rw [hnone] at hl
      exact Except.ok.inj hl
    obtain ⟨hp, ⟨t, ht, htext⟩, -⟩ := Label.check_eq_ok.1 hc
    obtain rfl : String.ofList text = t := Value.text.inj (hl₀.symm.trans ht)
    refine h.grown (s := .labels) (e := .label l₀) rfl ⟨⟨_, hl₀, htext, ?_⟩, hp, hnone⟩
    rw [String.toList_ofList]
    exact hs _ _ hb
  | beginPicture | endPicture => exact h

theorem keeps_addStatements_readable (codec : Given R (Codec R)) (wanted : String) :
    ∀ {ss : List (Statement R)}, (∀ s ∈ ss, s.body.IsTidy) →
      Keeps AllReadable (addStatements codec wanted ss)
  | [], _ => Keeps.pure ()
  | s :: _, h => (keeps_addStatement_readable codec wanted (h s List.mem_cons_self)).bind fun _ =>
    keeps_addStatements_readable codec wanted fun t ht => h t (List.mem_cons_of_mem _ ht)

/-- Every element that is read from a text is readable, and in the collection for its kind. -/
theorem readable_ofText {codec : Given R (Codec R)} {text : List Char} {d : Diagram R}
    (h : (Diagram.ofText codec text).result = .ok d) : AllReadable d := by
  simp only [Diagram.ofText, Logged.result_bind, bind_eq_ok] at h
  obtain ⟨ss, hss, d', hd, -, -, h⟩ := h
  cases h
  have htidy := isTidy_of_readDocument hss
  have hempty : AllReadable (Diagram.empty : Diagram R) := by
    intro s e he
    cases s <;> cases he
  obtain ⟨t, last, x, hall, -, -, rfl⟩ := Diagram.of_ofStatements
    (fun wanted => keeps_addStatements_readable codec wanted htidy) hempty hd
  intro s e he
  refine hall s e ?_
  cases s <;> exact he

/-! ### Diagrams that can be written -/

/-- Every element is legible, and in the collection for its kind. -/
def Diagram.AllLegible (d : Diagram R) : Prop :=
  ∀ s, ∀ e ∈ (d.shelf s).values, s.admits e = true ∧ d.IsLegible e

theorem allLegible_ofText {codec : Given R (Codec R)} {text : List Char} {d : Diagram R}
    (h : (Diagram.ofText codec text).result = .ok d) : d.AllLegible := by
  intro s e he
  obtain ⟨hs, hr⟩ := readable_ofText h s e he
  exact ⟨hs, hr.isLegible d⟩

/-- Whether the text of a label, if it is one, stays on a line, and whether the label stands within
bounds. -/
structure Diagram.IsInPlace (d : Diagram R) (l : Label R) : Prop where
  oneLine : ∀ t, l.text = .text t → OneLine t.toList
  position : ∃ p, (d.resolve l).result = .ok p ∧ IsPosition p

/-- A valid diagram can be written if its labels are in place. -/
theorem Diagram.allLegible_of_validate {d : Diagram R} (hv : d.validate = .ok ())
    (hl : ∀ l, Element.label l ∈ d.labels.values → d.IsInPlace l) : d.AllLegible := by
  intro s e he
  have hc := check_of_validate hv s e he
  have hs := admits_of_check hc
  refine ⟨hs, ?_⟩
  cases e with
  | label l =>
    cases s <;> cases hs
    obtain ⟨-, ⟨t, ht, htext⟩, -⟩ := Label.check_eq_ok.1 hc
    obtain ⟨hone, hposition⟩ := hl l he
    exact ⟨⟨t, ht, htext, fun c hm => hone t ht c (mem_of_mem_stripMath hm)⟩, hposition⟩
  | point | edge | ellipse =>
    cases s <;> cases hs
    exact hc

end FeynmanTikz
