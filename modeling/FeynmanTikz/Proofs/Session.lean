/-
What a session keeps.

`Session.apply` makes the diagram of a text the live one before that diagram has been validated and
written.  Nothing is lost by this, because every diagram that is read from a text is valid and can be
written: so an apply is all or nothing, and a text that is shown as unedited is the one generated last.

* `Session.outcome_regenerate`: generating computes a text first and writes all of it or nothing,
* `Session.apply_allOrNothing`: the two outcomes of an apply,
* `Session.Turn`, `Session.run`: everything that may happen to a session, and to its diagram behind its
  back; `Session.becomes`: what a turn may do,
* `Session.InStep`: a text that is shown as unedited is the one generated last; `InStep.step`,
* `Session.Holds`: the editor holds an edited text; `Holds.step`, as long as nothing overwrites it,
* `Session.run_inStep`: both along every run.

Design notes.
* Only faults of reading are left to an apply.  The others would be told after the live diagram is gone.
* A run starts with a session that has been started.  Its diagram need not be valid afterwards.
-/
import FeynmanTikz.Proofs.Tikz.Totality
import FeynmanTikz.Session

namespace FeynmanTikz.Session

open Edit

variable {R : Type} [Arithmetic R]

/-! ### Generating a text -/

/-- The text of the live diagram, which must be valid. -/
def produced (default : Given R (Codec R)) (s : Session R) : Except (Fault R) String := do
  s.diagram.validate
  (s.diagram.document (s.codec.getD default)).result

/-- A session with a text generated.  The editor gets it if it is forced to, or if its own has not been
edited. -/
def withGenerated (force : Bool) (s : Session R) (text : String) : Session R :=
  if force || !s.dirty then { s with generated := text, text := .text text, dirty := false }
  else { s with generated := text }

theorem outcome_regenerate (default : Given R (Codec R)) (force : Bool) (s : Session R) :
    (regenerate default force).outcome s =
      written (s.produced default) (s.withGenerated force) s := by
  unfold regenerate produced
  rw [outcome_bind_ok (outcome_current s), outcome_liftExcept_bind]
  rcases s.diagram.validate with e | ⟨⟩
  · rfl
  dsimp only
  rw [outcome_liftLogged_bind, ok_bind]
  rcases (s.diagram.document (s.codec.getD default)).result with e | text
  · rfl
  dsimp only
  rw [outcome_bind_ok (outcome_update _ s), written_ok, withGenerated]
  by_cases hf : (force || !s.dirty) = true
  · rw [if_pos hf, if_pos hf]
    rfl
  · rw [if_neg hf, if_neg hf]
    rfl

theorem outcome_publish {default : Given R (Codec R)} {s : Session R} {text : String}
    (h : s.produced default = .ok text) :
    (publish default).outcome s =
      (.ok (), { s with generated := text, text := .text text, dirty := false }) := by
  unfold publish
  have hr : (regenerate default true).outcome s =
      (.ok text, { s with generated := text, text := .text text, dirty := false }) := by
    rw [outcome_regenerate, h]
    rfl
  rw [outcome_bind_ok hr]
  rfl

theorem outcome_clear (default : Given R (Codec R)) (s : Session R) :
    (clear default).outcome s =
      (regenerate default true >>= fun _ => pure ()).outcome { s with diagram := s.diagram.cleared } := by
  unfold clear
  rw [outcome_bind_ok (outcome_update _ s)]

/-! ### Applying a text -/

/-- What an apply reads: the text it is given, or that of the editor if it is given none. -/
def source (s : Session R) (text : Value R) : Value R := if text.isSome then text else s.text

theorem outcome_adopt (default : Given R (Codec R)) (s : Session R) (text : Value R) :
    (adopt default text).outcome s =
      match (Diagram.ofTextValue (s.codec.getD default) (s.source text)).result with
      | .ok d => (.ok (), { s with diagram := d, dirty := false })
      | .error e => (.error e, s) := by
  unfold adopt source
  rw [outcome_bind_ok (outcome_current s), outcome_liftLogged_bind]
  rcases (Diagram.ofTextValue (s.codec.getD default) _).result with e | d <;> rfl

/-- What cannot be read is not applied. -/
theorem outcome_apply_error {default : Given R (Codec R)} {s : Session R} {text : Value R} {e : Fault R}
    (h : (Diagram.ofTextValue (s.codec.getD default) (s.source text)).result = .error e) :
    (apply default text).outcome s = (.error e, s) := by
  have hadopt := outcome_adopt default s text
  rw [h] at hadopt
  exact outcome_bind_error hadopt

theorem outcome_apply_ok {default : Given R (Codec R)} {s : Session R} {text : Value R} {d : Diagram R}
    (h : (Diagram.ofTextValue (s.codec.getD default) (s.source text)).result = .ok d) :
    (apply default text).outcome s =
      (publish default).outcome { s with diagram := d, dirty := false } := by
  have hadopt := outcome_adopt default s text
  rw [h] at hadopt
  exact outcome_bind_ok hadopt

section

variable [HasUnits R] {default : Given R (Codec R)} {s : Session R}

/-- With a diagram that has been read from a text, a text can be generated. -/
theorem exists_produced_ofText (hc : s.codec.getD default = standardCodec) {text : List Char}
    {d : Diagram R} (hd : (Diagram.ofText standardCodec text).result = .ok d) :
    ∃ w, (d.document standardCodec).result = .ok w ∧
      ({ s with diagram := d, dirty := false } : Session R).produced default = .ok w := by
  obtain ⟨w, hw⟩ := exists_document_ofText hd
  refine ⟨w, hw, ?_⟩
  unfold produced
  rw [validate_ofText hd, ok_bind, hc, hw]

/-- An apply is all or nothing.  Either the text is unreadable and the session stays as it was, or the
diagram of the text is the live one, and the text of this diagram is in the editor and the one generated
last. -/
theorem apply_allOrNothing (hc : s.codec.getD default = standardCodec) {text : Value R} {t : String}
    (ht : s.source text = .text t) :
    (∃ f, (Diagram.ofText standardCodec t.toList).result = .error (.unreadable f) ∧
      (apply default text).outcome s = (.error (.unreadable f), s)) ∨
    ∃ d w, (Diagram.ofText standardCodec t.toList).result = .ok d ∧
      (d.document standardCodec).result = .ok w ∧
      (apply default text).outcome s =
        (.ok (), { s with diagram := d, dirty := false, text := .text w, generated := w }) := by
  have hread : (Diagram.ofTextValue (s.codec.getD default) (s.source text)).result =
      (Diagram.ofText standardCodec t.toList).result := by
    rw [hc, ht]
    rfl
  rcases hr : (Diagram.ofText (R := R) standardCodec t.toList).result with e | d
  · -- Whatever goes wrong while the text is read says that the text is unreadable.
    obtain ⟨f, rfl⟩ := (ends_ofText t.toList).error hr
    exact .inl ⟨f, rfl, outcome_apply_error (hread.trans hr)⟩
  · -- From here on nothing goes wrong, so the diagram is not replaced in vain.
    obtain ⟨w, hw, hp⟩ := exists_produced_ofText hc hr
    refine .inr ⟨d, w, rfl, hw, ?_⟩
    rw [outcome_apply_ok (hread.trans hr), outcome_publish hp]

end

/-- A session whose editor holds a statement that has been typed in. -/
def typed : Session Float where
  diagram := Diagram.empty
  codec := none
  text := .text "\\node at (1, -1) \x7b$p$\x7d;"
  dirty := true

theorem apply_typed : typed.codec.getD standardCodec = standardCodec ∧
    typed.source .none = .text "\\node at (1, -1) \x7b$p$\x7d;" ∧
    ∃ d w, (Diagram.ofText (R := Float) standardCodec "\\node at (1, -1) \x7b$p$\x7d;".toList).result =
        .ok d ∧ (d.document standardCodec).result = .ok w ∧
      (apply standardCodec .none).outcome typed =
        (.ok (), { typed with diagram := d, dirty := false, text := .text w, generated := w }) := by
  have hc : typed.codec.getD standardCodec = standardCodec := rfl
  have ht : typed.source .none = .text "\\node at (1, -1) \x7b$p$\x7d;" := rfl
  refine ⟨hc, ht, ?_⟩
  rcases apply_allOrNothing hc ht with ⟨f, hf, -⟩ | h
  · have hok : (Diagram.ofText (R := Float) standardCodec
        "\\node at (1, -1) \x7b$p$\x7d;".toList).result.isOk = true := by decide +kernel
    rw [hf] at hok
    cases hok
  · exact h

/-! ### Turns -/

/-- What may happen to a session: its four calls, and any change of its diagram behind its back. -/
inductive Turn (R : Type) where
  | regenerate (force : Bool)
  | editText (text : Value R)
  | apply (text : Value R)
  | clear
  | change (d : Diagram R)

section

variable (default : Given R (Codec R))

def perform : Turn R → Action R Unit
  | .regenerate force => do let _ ← regenerate default force
  | .editText text => editText text
  | .apply text => apply default text
  | .clear => clear default
  | .change d => Edit.update fun s => { s with diagram := d }

/-- Whether a turn succeeds. -/
def succeeds (s : Session R) (t : Turn R) : Bool := ((perform default t).outcome s).1.isOk

/-- The session after a turn, whether it has succeeded or not. -/
def after (s : Session R) (t : Turn R) : Session R := ((perform default t).outcome s).2

/-- The session after some turns. -/
def run (s : Session R) : List (Turn R) → Session R
  | [] => s
  | t :: ts => run (s.after default t) ts

/-- Whether a turn replaces the text of the editor, edited or not: an edit and a clear do, and so do an
apply and a forced generation that succeed. -/
def overwrites (s : Session R) : Turn R → Bool
  | .regenerate force => force && s.succeeds default (.regenerate force)
  | .editText _ => true
  | .apply text => s.succeeds default (.apply text)
  | .clear => true
  | .change _ => false

/-- Whether no turn replaces the text of the editor. -/
def quiet (s : Session R) : List (Turn R) → Bool
  | [] => true
  | t :: ts => !s.overwrites default t && quiet (s.after default t) ts

/-- What a session may become in a turn. -/
inductive Becomes (s : Session R) : Turn R → Session R → Prop where
  | failed {t : Turn R} (fails : s.succeeds default t = false) : Becomes s t s
  | generated {force : Bool} (text : String) (ok : s.succeeds default (.regenerate force) = true) :
      Becomes s (.regenerate force) (s.withGenerated force text)
  | edited (text : Value R) : Becomes s (.editText text) { s with text, dirty := true }
  | applied {text : Value R} (d : Diagram R) (w : String)
      (ok : s.succeeds default (.apply text) = true) :
      Becomes s (.apply text)
        { s with diagram := d, dirty := false, text := .text w, generated := w }
  | cleared (w : String) :
      Becomes s .clear
        { s with diagram := s.diagram.cleared, dirty := false, text := .text w, generated := w }
  | changed (d : Diagram R) : Becomes s (.change d) { s with diagram := d }

end

section

variable {default : Given R (Codec R)} {s : Session R}

theorem becomes_of_ok {t : Turn R} {s' : Session R} (h : (perform default t).outcome s = (.ok (), s'))
    (hs : s.succeeds default t = true → s.Becomes default t s') :
    s.Becomes default t (s.after default t) := by
  rw [after, h]
  exact hs (by rw [succeeds, h]; rfl)

theorem becomes_of_error {t : Turn R} {e : Fault R} (h : (perform default t).outcome s = (.error e, s)) :
    s.Becomes default t (s.after default t) := by
  rw [after, h]
  exact .failed (by rw [succeeds, h]; rfl)

theorem becomes_regenerate (force : Bool) :
    s.Becomes default (.regenerate force) (s.after default (.regenerate force)) := by
  have hout : (perform default (.regenerate force)).outcome s =
      (regenerate default force >>= fun _ => pure ()).outcome s := rfl
  have hr := outcome_regenerate default force s
  rcases hp : s.produced default with e | text
  · rw [hp] at hr
    exact becomes_of_error (hout.trans (outcome_bind_error hr))
  · rw [hp] at hr
    exact becomes_of_ok (hout.trans (outcome_bind_ok hr)) (.generated text)

variable [HasUnits R]

theorem becomes_apply (hc : s.codec.getD default = standardCodec) (text : Value R) :
    s.Becomes default (.apply text) (s.after default (.apply text)) := by
  -- What is no text cannot be read; the rest has been told above.
  by_cases ht : ∃ t, s.source text = .text t
  · obtain ⟨t, ht⟩ := ht
    rcases apply_allOrNothing hc ht with ⟨f, -, hout⟩ | ⟨d, w, -, -, hout⟩
    · exact becomes_of_error hout
    · exact becomes_of_ok hout (.applied d w)
  · have hread : (Diagram.ofTextValue (s.codec.getD default) (s.source text)).result =
        .error .missingField := by
      unfold Diagram.ofTextValue
      split
      · exact absurd ⟨_, ‹_›⟩ ht
      · rfl
    exact becomes_of_error (outcome_apply_error hread)

omit [HasUnits R] in
theorem becomes_clear (hc : s.codec.getD default = standardCodec) :
    s.Becomes default .clear (s.after default .clear) := by
  obtain ⟨w, hw⟩ := exists_document_cleared s.diagram
  have hp : ({ s with diagram := s.diagram.cleared } : Session R).produced default = .ok w := by
    unfold produced
    rw [validate_cleared, ok_bind, hc, hw]
  have hr := outcome_regenerate default true { s with diagram := s.diagram.cleared }
  rw [hp] at hr
  exact becomes_of_ok ((outcome_clear default s).trans (outcome_bind_ok hr)) fun _ => .cleared w

theorem becomes (hc : s.codec.getD default = standardCodec) (t : Turn R) :
    s.Becomes default t (s.after default t) := by
  cases t with
  | regenerate force => exact becomes_regenerate force
  | editText text => exact .edited text
  | apply text => exact becomes_apply hc text
  | clear => exact becomes_clear hc
  | change d => exact .changed d

end

/-! ### What holds after every turn -/

/-- A text that is shown as unedited is the one generated last. -/
def InStep (s : Session R) : Prop := s.dirty = false → s.text = .text s.generated

/-- The editor holds a text that has been put there by hand. -/
structure Holds (s : Session R) (text : Value R) : Prop where
  text_eq : s.text = text
  dirty : s.dirty = true

section

variable {default : Given R (Codec R)} {s s' : Session R} {t : Turn R}

theorem Becomes.codec_eq (h : s.Becomes default t s') : s'.codec = s.codec := by
  cases h with
  | generated text ok =>
    unfold withGenerated
    split <;> rfl
  | failed | edited | applied | cleared | changed => rfl

theorem InStep.step (hs : s.InStep) (h : s.Becomes default t s') : s'.InStep := by
  cases h with
  | failed => exact hs
  | @generated force text ok =>
    unfold withGenerated
    by_cases hf : (force || !s.dirty) = true
    · rw [if_pos hf]
      exact fun _ => rfl
    · -- The editor keeps its text, but then it is shown as edited.
      rw [if_neg hf]
      intro hdirty
      have hdirty : s.dirty = false := hdirty
      rw [hdirty] at hf
      simp at hf
  | edited text =>
    intro hdirty
    cases hdirty
  | applied d w ok => exact fun _ => rfl
  | cleared w => exact fun _ => rfl
  | changed d => exact hs

/-- A turn that does not overwrite the editor leaves an edited text there. -/
theorem Holds.step {text : Value R} (hs : s.Holds text) (h : s.Becomes default t s')
    (ht : s.overwrites default t = false) : s'.Holds text := by
  cases h with
  | failed => exact hs
  | @generated force w ok =>
    have hforce : force = false := by simpa [overwrites, ok] using ht
    have hkeep : s.withGenerated force w = { s with generated := w } := by
      rw [withGenerated, hforce, hs.dirty]
      rfl
    rw [hkeep]
    exact ⟨hs.text_eq, hs.dirty⟩
  | edited => cases ht
  | applied d w ok =>
    rw [overwrites, ok] at ht
    cases ht
  | cleared w => cases ht
  | changed d => exact ⟨hs.text_eq, hs.dirty⟩

variable [HasUnits R]

theorem run_keeps {P : Session R → Prop}
    (step : ∀ {s s' : Session R} {t : Turn R}, P s → s.Becomes default t s' → P s') :
    ∀ {s : Session R} (ts : List (Turn R)), s.codec.getD default = standardCodec → P s →
      (s.run default ts).codec = s.codec ∧ P (s.run default ts)
  | _, [], _, hs => ⟨rfl, hs⟩
  | s, t :: ts, hc, hs => by
    have h := becomes hc t
    obtain ⟨hcodec, hrun⟩ := run_keeps step ts (by rw [h.codec_eq]; exact hc) (step hs h)
    exact ⟨hcodec.trans h.codec_eq, hrun⟩

theorem Holds.run {text : Value R} : ∀ {s : Session R} (ts : List (Turn R)),
    s.codec.getD default = standardCodec → s.Holds text → s.quiet default ts = true →
      (s.run default ts).Holds text
  | _, [], _, hs, _ => hs
  | s, t :: ts, hc, hs, hq => by
    have h := becomes hc t
    have hq : (!s.overwrites default t && (s.after default t).quiet default ts) = true := hq
    rw [Bool.and_eq_true, Bool.not_eq_true'] at hq
    exact Holds.run ts (by rw [h.codec_eq]; exact hc) (hs.step h hq.1) hq.2

omit [HasUnits R] in
/-- Where a session is started, the text is the one generated. -/
theorem inStep_start {d : Diagram R} {codec : Option (Given R (Codec R))}
    (h : (start default d codec).result = .ok s) : s.codec = codec ∧ s.InStep := by
  have hout : (start default d codec).result =
      ((regenerate default true >>= fun _ => Edit.current).outcome { diagram := d, codec }).1 := rfl
  rw [hout, outcome_bind, outcome_regenerate] at h
  rcases hp : ({ diagram := d, codec } : Session R).produced default with e | text
  · rw [hp] at h
    cases h
  · rw [hp] at h
    cases h
    exact ⟨rfl, fun _ => rfl⟩

/-- In every run of a session, whatever fails in it and whatever is done to the diagram: a text that is
shown as unedited is the one generated last, and an edited text stays in the editor, shown as edited,
until a turn replaces it. -/
theorem run_inStep {d : Diagram R} {codec : Option (Given R (Codec R))}
    (hc : codec.getD default = standardCodec) (hs : (start default d codec).result = .ok s)
    (ts : List (Turn R)) :
    (s.run default ts).InStep ∧ ∀ (text : Value R) (later : List (Turn R)),
      ((s.run default ts).after default (.editText text)).quiet default later = true →
      (((s.run default ts).after default (.editText text)).run default later).Holds text := by
  obtain ⟨rfl, hstart⟩ := inStep_start hs
  obtain ⟨hcodec, hrun⟩ := run_keeps (fun hs h => InStep.step hs h) ts hc hstart
  refine ⟨hrun, fun text later hq => ?_⟩
  refine Holds.run later ?_ ⟨rfl, rfl⟩ hq
  rw [← hcodec] at hc
  exact hc

end

/-- Turns that leave the editor alone: generating, also with a diagram that is not valid, and applying
what cannot be read. -/
def quietTurns : List (Turn Float) :=
  [.regenerate false, .apply (.text "\\bad"), .change { next := .int 7, points :=
    ⟨[(.int 1, .point ⟨.int 1, .none, .none⟩)]⟩ }, .regenerate true, .regenerate false]

theorem run_inStep_quiet : (none : Option (Given Float (Codec Float))).getD standardCodec = standardCodec ∧
    ∃ s, (start standardCodec (Diagram.empty : Diagram Float) none).result = .ok s ∧ s.InStep ∧
      (s.after standardCodec (.editText (.text "typed"))).quiet standardCodec quietTurns = true ∧
      ((s.after standardCodec (.editText (.text "typed"))).run standardCodec quietTurns).Holds
        (.text "typed") := by
  obtain ⟨s, hs⟩ := exists_of_isOk (x := (start standardCodec (Diagram.empty : Diagram Float) none).result)
    (by decide +kernel)
  obtain ⟨hstep, hholds⟩ := run_inStep rfl hs []
  have hq : (s.after standardCodec (.editText (.text "typed"))).quiet standardCodec quietTurns = true := by
    have hall : ((start standardCodec (Diagram.empty : Diagram Float) none).result.map fun s =>
        (s.after standardCodec (.editText (.text "typed"))).quiet standardCodec quietTurns).toOption =
          some true := by decide +kernel
    rw [hs] at hall
    exact Option.some.inj hall
  exact ⟨rfl, s, hs, hstep, hq, hholds _ _ hq⟩

end FeynmanTikz.Session
