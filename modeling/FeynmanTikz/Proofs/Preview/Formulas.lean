/-
The formulas that a preview shows.

The text of a label may have dollar signs of its own.  In the statement for the label the formula is what is
left without them, between two new ones; a preview draws the whole text between two more.

* `Follows.fitting`, `Sound.resolve_fitting`: after every run each label stands at a pair of numbers that fit,
* `Shows.formulas`: the formulas of a preview are those of its labels, in order,
* `labelMarkup_eq_iff`: it is the one in the statement exactly if the text has no delimiters at its ends,
* `run_formulas`: the formulas of a preview after any run, and after a way through the text,
* `delimited_label_doubled`: a label that is drawn with four dollar signs.

Design notes.
* What is read from a text has lost its delimiters, so the formulas agree from there on.
-/
import FeynmanTikz.Proofs.Diagram.Bounds
import FeynmanTikz.Proofs.Preview.Depiction
import FeynmanTikz.Proofs.Tikz.Deletion
import FeynmanTikz.Proofs.Tikz.DoubleMeasure
import FeynmanTikz.Proofs.Tikz.RoundTrip

namespace FeynmanTikz

/-! ### Where labels stand -/

section

variable {R : Type} [Arithmetic R]

/-- A label that has a binding is bound. -/
theorem exists_bound {l : Label R} {b : Option (Binding R)} (hb : l.bound? = .ok b)
    (hsome : l.binding.isSome = true) : ∃ c, b = some c := by
  unfold Label.bound? at hb
  split at hb
  case h_1 hnone =>
    rw [hnone] at hsome
    cases hsome
  case h_2 =>
    obtain ⟨c, -, hc⟩ := bind_eq_ok.1 hb
    exact ⟨c, (Except.ok.inj hc).symm⟩

namespace Diagram

/-- Every label is stored at a pair of numbers that fit. -/
def StoresFitting (d : Diagram R) : Prop := ∀ l, .label l ∈ d.labels.values → IsFittingPair l.position

/-- A bound label stands at a pair of numbers of type `R`. -/
theorem Sound.resolve_bound {d : Diagram R} (h : d.Sound) {l : Label R} (hl : .label l ∈ d.labels.values)
    {b : Binding R} (hb : l.bound? = .ok (some b)) : ∃ p, (d.resolve l).result = .ok p ∧ IsFittingPair p := by
  obtain ⟨n, hn⟩ := h.orderly
  obtain ⟨hsound, htied⟩ := h.label hl
  obtain ⟨b', hb', hbinding⟩ := hsound.binding
  obtain rfl : b' = some b := Except.ok.inj (hb'.symm.trans hb)
  obtain ⟨hanchor, hoffset⟩ := hbinding b rfl
  obtain ⟨k, e, hk, he, hm⟩ := hn.edge_of_isLive (htied.isLive hb)
  obtain ⟨x, y, hp⟩ := d.resolve_real hb hk he (h.edge hm) hanchor hoffset
  exact ⟨_, hp, IsRealPair.isFittingPair ⟨x, y, rfl⟩⟩

/-- A label that is stored at numbers that fit stands at such numbers. -/
theorem Sound.resolve_fitting {d : Diagram R} (h : d.Sound) (hf : d.StoresFitting) {l : Label R}
    (hl : .label l ∈ d.labels.values) : ∃ p, (d.resolve l).result = .ok p ∧ IsFittingPair p := by
  obtain ⟨b, hb, -⟩ := (h.label hl).1.binding
  cases b with
  | none => exact ⟨_, d.resolve_of_unbound hb, hf l hl⟩
  | some b => exact h.resolve_bound hl hb

variable [HasOpposites R]

/-- An edit stores no label at numbers that do not fit. -/
theorem Follows.fitting {d t : Diagram R} (h : Follows d t) (hd : d.Sound) (hf : d.StoresFitting) :
    t.StoresFitting := by
  intro l hl
  have of_result {m : Logged R (Value R)} (hm : ∃ p, m.result = .ok p ∧ IsFittingPair p)
      (hp : m.result = .ok l.position) : IsFittingPair l.position := by
    obtain ⟨p, hr, hfit⟩ := hm
    obtain rfl : p = l.position := Except.ok.inj (hr.symm.trans hp)
    exact hfit
  cases h.traceable l hl with
  | old h => exact hf l h
  | checked h => exact h.isFittingPair
  | before l₀ h hp => exact of_result (hd.resolve_fitting hf h) hp
  | after hsome hp =>
    obtain ⟨b, hb, -⟩ := (h.sound.label hl).1.binding
    obtain ⟨b, rfl⟩ := exists_bound hb hsome
    exact of_result (h.sound.resolve_bound hl hb) hp

theorem StoresFitting.run : ∀ {d : Diagram R}, d.Sound → d.StoresFitting → ∀ qs : List (Request R),
    (d.run qs).StoresFitting
  | _, _, hf, [] => hf
  | _, h, hf, q :: qs => StoresFitting.run (h.after q) ((h.perform q).keeps hf fun _ ht => ht.fitting h hf) qs

theorem IsStart.storesFitting {d : Diagram R} (h : d.IsStart) : d.StoresFitting := fun l hl =>
  (h.near l hl).isFittingPair

end Diagram

/-! ### Formulas -/

/-- The formulas among some calls. -/
def formulas (calls : List (DrawCall R)) : List String :=
  calls.filterMap fun c => match c with
    | .text _ _ t => some t
    | _ => none

/-- The formula in the statement for a label with a text. -/
def writtenFormula (t : String) : String := "$" ++ String.ofList (stripMath t.toList) ++ "$"

/-- This formula, or nothing where there is nothing between the dollar signs. -/
def shownFormula (t : String) : String := if stripMath t.toList = [] then "" else writtenFormula t

omit [Arithmetic R] in
theorem formulas_append (a b : List (DrawCall R)) : formulas (a ++ b) = formulas a ++ formulas b :=
  List.filterMap_append

theorem labelMarkup_text (t : String) :
    labelMarkup (.text t : Value R) = if t.toList = [] then "" else "$" ++ t ++ "$" := by
  unfold labelMarkup
  simp only [Value.isTruthy, Value.plain, Bool.not_eq_eq_eq_not, Bool.not_true, String.isEmpty_eq_false_iff,
    ne_eq, ← String.toList_eq_nil_iff, ite_not]

/-- The formula that is drawn is the one in the statement exactly if the text has no delimiters at its ends. -/
theorem labelMarkup_eq_iff (t : String) :
    labelMarkup (.text t : Value R) = shownFormula t ↔ stripMath t.toList = t.toList := by
  rw [labelMarkup_text, shownFormula, writtenFormula]
  by_cases ht : t.toList = []
  · simp [ht, show stripMath [] = [] from rfl]
  by_cases hs : stripMath t.toList = []
  · simp [ht, hs, Ne.symm ht, ← String.toList_inj]
  · rw [if_neg ht, if_neg hs, ← String.toList_inj]
    simp [eq_comm]

/-- After a way through the text the formula is the one in the statement. -/
theorem labelMarkup_stripMath (t : String) :
    labelMarkup (.text (String.ofList (stripMath t.toList)) : Value R) = shownFormula t := by
  rw [labelMarkup_text, String.toList_ofList]
  rfl

/-! ### Formulas of a preview -/

/-- The formula that is drawn for an element, if it is a label. -/
def Element.formula? : Element R → Option String
  | .label l => some (labelMarkup l.text)
  | _ => none

omit [Arithmetic R] in
theorem Marker.Shows.formulas {m : Marker R} {color : String} {width : Value R} {calls : List (DrawCall R)}
    (h : m.Shows color width calls) : FeynmanTikz.formulas calls = [] := by
  cases h <;> rfl

variable [Arrays R]

/-- An element is drawn with its formula. -/
theorem Diagram.Depicts.formulas {d : Diagram R} {strokes : Strokes R} {e : Element R} {g : Drawing R}
    (h : d.Depicts strokes e g) : FeynmanTikz.formulas g.calls = e.formula?.toList := by
  cases h with
  | ellipse | point | label => rfl
  | @edge _ _ _ _ _ _ calls _ _ _ _ _ _ hshown =>
    -- The polyline is no formula, and no marker has one.
    show List.filterMap _ calls.flatten = []
    rw [List.filterMap_flatten, List.flatten_eq_nil_iff]
    intro ts hts
    obtain ⟨cs, hcs, rfl⟩ := List.mem_map.1 hts
    obtain ⟨m, -, hm⟩ := exists_of_forall₂ hshown hcs
    exact hm.formulas

theorem formulas_drawn {d : Diagram R} {strokes : Strokes R} {s : Shelf} {es : List (Element R)}
    {gs : List (Drawing R)}
    (h : List.Forall₂ (fun e g => s.admits e = true ∧ d.Depicts strokes e g) es gs) :
    formulas (gs.flatMap Drawing.calls) = es.filterMap Element.formula? := by
  induction h with
  | nil => rfl
  | @cons e g _ _ he _ ih =>
    rw [List.flatMap_cons, formulas_append, ih, he.2.formulas, List.filterMap_cons]
    cases e.formula? <;> rfl

/-- The formulas of a preview are those of its labels. -/
theorem Diagram.Shows.formulas {d : Diagram R} {strokes : Strokes R} {gs : Shelf → List (Drawing R)}
    {limits : List (DrawCall R)} (h : d.Shows strokes gs limits) :
    FeynmanTikz.formulas ((inOrder gs).flatMap Drawing.calls ++ limits ++ [.equalAspect, .axisOff]) =
      d.labels.values.filterMap Element.formula? := by
  have hlimits : FeynmanTikz.formulas limits = [] := by
    rcases h.limits with ⟨-, rfl⟩ | ⟨-, _, _, _, _, rfl, -⟩ <;> rfl
  have hother {s : Shelf} (hs : s ≠ .labels) : FeynmanTikz.formulas ((gs s).flatMap Drawing.calls) = [] := by
    rw [formulas_drawn (h.depicted s), List.filterMap_eq_nil_iff]
    intro e he
    obtain ⟨g, -, hg⟩ := exists_of_forall₂ (h.depicted s).flip he
    cases e with
    | label => cases s <;> first | exact absurd rfl hs | cases hg.1
    | _ => rfl
  have hlabels := formulas_drawn (h.depicted .labels)
  unfold inOrder
  rw [List.flatMap_append, List.flatMap_append, List.flatMap_append, formulas_append, formulas_append,
    formulas_append, formulas_append, formulas_append, hother (by decide), hother (by decide),
    hother (by decide), hlimits, hlabels]
  simp [FeynmanTikz.formulas, Diagram.shelf]

/-! ### Formulas after a run -/

omit [Arithmetic R] [Arrays R] in
/-- What is found in some things, compared with what they have come from. -/
theorem forall₂_filterMap {α β γ : Type} {f : β → Option γ} {r : α → γ → Prop} {as : List α} {bs : List β}
    (h : List.Forall₂ (fun a b => ∃ c, f b = some c ∧ r a c) as bs) : List.Forall₂ r as (bs.filterMap f) := by
  induction h with
  | nil => exact .nil
  | cons hab _ ih =>
    obtain ⟨c, hc, hr⟩ := hab
    rw [List.filterMap_cons, hc]
    exact .cons hr ih

namespace Diagram

/-- A label with a text, in whose statement the formula of this text stands. -/
def Formulates (d : Diagram R) (e : Element R) (t : String) : Prop :=
  ∃ (l : Label R) (place : String), e = .label l ∧ l.text = .text t ∧
    d.line standardCodec e = .ok ("\\node at " ++ place ++ " " ++ inBraces (writtenFormula t) ++ ";")

omit [Arrays R] in
theorem Sound.exists_formulates [HasUnits R] {d : Diagram R} (h : d.Sound) (hf : d.StoresFitting) {e : Element R}
    (he : e ∈ d.labels.values) :
    ∃ t, d.Formulates e t ∧ e.formula? = some (labelMarkup (.text t : Value R)) := by
  obtain ⟨l, rfl⟩ := h.exists_label he
  obtain ⟨t, ht, -⟩ := (h.label he).1.text
  obtain ⟨p, hp, hfit⟩ := h.resolve_fitting hf he
  obtain ⟨place, hplace⟩ := hfit.exists_format
  refine ⟨t, ⟨l, place, rfl, ht, ?_⟩, congrArg (fun v => some (labelMarkup v)) ht⟩
  show (d.formatLabel standardCodec l).result = _
  unfold formatLabel
  rw [Logged.result_bind, hp, ok_bind]
  refine bind_eq_ok.2 ⟨place, hplace, ?_⟩
  rw [ht]
  rfl

variable [LawfulArrays R] [Canvas R] [LawfulCanvas R] {ρ : Rat → Rat} [Angles R ρ]

include ρ

/-- A sound diagram has a preview. -/
theorem Sound.exists_formulas {d : Diagram R} (h : d.Sound) (hf : d.StoresFitting) :
    ∃ calls, (d.preview (Strokes.standard : Strokes R).given).result = .ok calls ∧
      formulas calls = d.labels.values.filterMap Element.formula? := by
  obtain ⟨n, hn⟩ := h.orderly
  obtain ⟨gs, limits, hshows, hcalls⟩ := exists_preview (d := d) fun s e he => by
    refine ⟨hn.admits he, ?_⟩
    have hsound := h.elements s e he
    cases e with
    | point | edge | ellipse => exact hsound
    | label l =>
      obtain rfl := hn.eq_labels he
      obtain ⟨p, hp, x, y, hpair, ⟨⟨a, ha⟩, -⟩, ⟨b, hb⟩, -⟩ := h.resolve_fitting hf he
      exact ⟨p, (a, b), hp, x, y, hpair, ha, hb⟩
  exact ⟨_, hcalls, hshows.formulas⟩

/-- A diagram that is written and read back is drawn with the formulas of its statements. -/
theorem exists_formulas_document [HasUnits R] [HasOpposites R] {d : Diagram R} (h : d.Sound) (hf : d.StoresFitting)
    (hlegible : d.AllLegible) : ∃ text d' calls, (d.document standardCodec).result = .ok text ∧
      (ofText standardCodec text.toList).result = .ok d' ∧
      (d'.preview (Strokes.standard : Strokes R).given).result = .ok calls ∧
      List.Forall₂ (fun e shown => ∃ t, d.Formulates e t ∧ shown = shownFormula t) d.labels.values
        (formulas calls) := by
  obtain ⟨rows, hsound, hrows⟩ := exists_rows readsBack_of_rounds hlegible
  obtain ⟨d', hd', hyields⟩ := ofText_documentText hsound
  have hs : d'.IsStart := .inr ⟨_, _, hd'⟩
  obtain ⟨calls, hcalls, hformulas⟩ := hs.sound.exists_formulas hs.storesFitting
  refine ⟨_, d', calls, hrows.document, hd', hcalls, ?_⟩
  rw [hformulas]
  have hsurvives := survives_rows (hrows .labels) (fun row hrow => (hsound .labels row hrow).2) (hyields .labels)
  refine forall₂_filterMap (List.forall₂_iff_zip.2 ⟨hsurvives.length_eq, fun {e k} hek => ?_⟩)
  have he : e ∈ d.labels.values := (List.of_mem_zip hek).1
  obtain ⟨t, ht, -⟩ := h.exists_formulates hf he
  refine ⟨shownFormula t, ?_, t, ht, rfl⟩
  obtain ⟨l, place, rfl, htext, -⟩ := ht
  -- What is left of the text in the statement is the text that is read.
  cases (List.forall₂_iff_zip.1 hsurvives).2 hek with
  | @label _ k p t' _ _ htext' hstripped _ =>
    obtain rfl : t' = t := Value.text.inj (htext'.symm.trans htext)
    show some (labelMarkup k.text) = _
    rw [hstripped, labelMarkup_stripMath]

/-- After every run a preview has one formula for each label: the text between dollar signs.  It is the
formula in the statement for the label, or nothing where that one is empty, exactly if the text has no
delimiters at its ends.  If the diagram can be written so that it can be read back, then what has been read
back is drawn with the formulas in the statements. -/
theorem run_formulas [HasUnits R] [HasOpposites R] {start : Diagram R} (hs : start.IsStart)
    (qs : List (Request R)) :
    (∃ calls, ((start.run qs).preview (Strokes.standard : Strokes R).given).result = .ok calls ∧
      List.Forall₂ (fun e shown => ∃ t, (start.run qs).Formulates e t ∧
        shown = labelMarkup (.text t : Value R) ∧
        (shown = shownFormula t ↔ stripMath t.toList = t.toList)) (start.run qs).labels.values
          (formulas calls)) ∧
    ((start.run qs).AllLegible → ∃ text d' calls, ((start.run qs).document standardCodec).result = .ok text ∧
      (ofText standardCodec text.toList).result = .ok d' ∧
      (d'.preview (Strokes.standard : Strokes R).given).result = .ok calls ∧
      List.Forall₂ (fun e shown => ∃ t, (start.run qs).Formulates e t ∧ shown = shownFormula t)
        (start.run qs).labels.values (formulas calls)) := by
  have hsound := hs.sound.run qs
  have hf := hs.storesFitting.run hs.sound qs
  refine ⟨?_, exists_formulas_document hsound hf⟩
  obtain ⟨calls, hcalls, hformulas⟩ := hsound.exists_formulas hf
  refine ⟨calls, hcalls, ?_⟩
  rw [hformulas]
  refine forall₂_filterMap (List.forall₂_same.2 fun e he => ?_)
  obtain ⟨t, ht, hshown⟩ := hsound.exists_formulates hf he
  exact ⟨_, hshown, t, ht, rfl, labelMarkup_eq_iff t⟩

end Diagram

end

namespace Diagram

/-- A label whose text has dollar signs of its own. -/
def delimitedRequests {R : Type} [Arithmetic R] : List (Request R) :=
  [.createLabel (.tuple [realNumber 0, realNumber 0]) (.text "$x$") .none]

instance : HasUnits Axial := ⟨by decide +kernel, by decide +kernel⟩

theorem run_formulas_delimited : (empty : Diagram Axial).IsStart ∧
    ((empty : Diagram Axial).run delimitedRequests).AllLegible ∧
    ∃ text d' calls, (((empty : Diagram Axial).run delimitedRequests).document standardCodec).result = .ok text ∧
      (ofText standardCodec text.toList).result = .ok d' ∧
      (d'.preview (Strokes.standard : Strokes Axial).given).result = .ok calls ∧
      List.Forall₂ (fun e shown => ∃ t, ((empty : Diagram Axial).run delimitedRequests).Formulates e t ∧
        shown = shownFormula t) ((empty : Diagram Axial).run delimitedRequests).labels.values
          (formulas calls) := by
  have hs : (empty : Diagram Axial).IsStart := .inl rfl
  obtain ⟨⟨⟩, hv⟩ := exists_of_isOk (x := ((empty : Diagram Axial).run delimitedRequests).validate)
    (by decide +kernel)
  have hstands : ((empty : Diagram Axial).run delimitedRequests).StandsNear := by decide +kernel
  have hline : (((empty : Diagram Axial).run delimitedRequests).labels.values.all fun e =>
      e.asLabel.toOption.all fun l => decide (OneLine (textOf l.text))) = true := by decide +kernel
  have hlegible : ((empty : Diagram Axial).run delimitedRequests).AllLegible := by
    refine allLegible_of_validate hv fun l hl => ⟨fun t ht => ?_, hstands l hl⟩
    have hone := of_decide_eq_true (List.all_eq_true.1 hline _ hl)
    rwa [ht] at hone
  exact ⟨hs, hlegible, (run_formulas hs delimitedRequests).2 hlegible⟩

/-- The dollar signs of a label are drawn together with two more, while its statement has two of them. -/
theorem delimited_label_doubled :
    (∃ calls, (((empty : Diagram Float).run delimitedRequests).preview
        (Strokes.standard : Strokes Float).given).result = .ok calls ∧ formulas calls = ["$$x$$"]) ∧
    (∃ place, (((empty : Diagram Float).run delimitedRequests).statements standardCodec).result =
      .ok ["\\node at " ++ place ++ " " ++ inBraces "$x$" ++ ";"]) ∧
    shownFormula "$x$" = "$x$" := by
  have hdrawn : (((empty : Diagram Float).run delimitedRequests).preview
      (Strokes.standard : Strokes Float).given).result.toOption.map formulas = some ["$$x$$"] := by
    decide +kernel
  have hwritten : (((empty : Diagram Float).run delimitedRequests).statements standardCodec).result.toOption =
      some ["\\node at " ++ "(0.00, -0.00)" ++ " " ++ inBraces "$x$" ++ ";"] := by
    decide +kernel
  obtain ⟨calls, hcalls, hformulas⟩ := Option.map_eq_some_iff.1 hdrawn
  exact ⟨⟨calls, eq_ok_of_toOption hcalls, hformulas⟩, ⟨_, eq_ok_of_toOption hwritten⟩, by decide +kernel⟩

end Diagram

end FeynmanTikz
