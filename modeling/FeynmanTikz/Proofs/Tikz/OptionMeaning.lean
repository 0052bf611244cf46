/-
What an option list means.

Every entry is looked at by itself, so an option list means what its entries ask for: of colours, widths
and arrows the last one, of the kinds of stroke the first one in a fixed order.  An option list is refused
if and only if one of its entries is faulty.

* `LastWins`, `FirstWins`: how several requests are settled,
* `DrawOptions.Means`: the options that a list of entries means,
* `readEntries_cases`: entries are refused, or each is read as what it asks for,
* `DrawOptions.means_ofEffects`: what they are read as is what they mean,
* `DrawOptions.strokeKind_congr`, `DrawOptions.ofEffects_nothing`: the order of entries does not matter to
  the kind of stroke, and entries that ask for nothing do not matter at all,
* `DrawOptions.read_means`: the whole option list.
-/
import FeynmanTikz.Proofs.Number.Exact
import FeynmanTikz.Proofs.Tikz.EntryMeaning

namespace FeynmanTikz

/-- The last entry that asks for something wins; if none does, there is a default. -/
def LastWins {α : Type} (asks : List Char → α → Prop) (default : α) (entries : List (List Char)) (a : α) :
    Prop :=
  (∃ before entry after, entries = before ++ entry :: after ∧ asks entry a ∧
      ∀ other ∈ after, ∀ b, ¬asks other b) ∨
    a = default ∧ ∀ entry ∈ entries, ∀ b, ¬asks entry b

/-- The first of several choices that is asked for wins; if none is, there is a default. -/
def FirstWins {α : Type} (asked : α → Prop) (default : α) (choices : List α) (a : α) : Prop :=
  (∃ before after, choices = before ++ a :: after ∧ asked a ∧ ∀ b ∈ before, ¬asked b) ∨
    a = default ∧ ∀ b ∈ choices, ¬asked b

variable {R : Type} [Arithmetic R]

/-- The options that a list of entries means. -/
structure DrawOptions.Means (defaultWidth : Value R) (entries : List (List Char)) (o : DrawOptions R) :
    Prop where
  strokeWidth : LastWins (fun entry w => Asks entry (.width w)) defaultWidth entries o.strokeWidth
  color : LastWins (fun entry c => Asks entry (.color c)) black entries o.color
  arrow : LastWins (fun entry a => Asks entry (Effect.arrow a : Effect R)) "none" entries o.arrow
  strokeKind : FirstWins (fun k => ∃ entry ∈ entries, Asks entry (Effect.stroke k : Effect R)) "solid"
    ["dashed", "dotted", "wavy", "spring"] o.strokeKind

/-- An entry asks for an effect and for nothing else, or for nothing at all. -/
def Says (entry : List Char) (e : Effect R) : Prop := ∀ e', Asks entry e' ↔ e = e' ∧ e' ≠ .nothing

/-! ### Requests are settled -/

section

omit [Arithmetic R]

variable {α : Type} {asks : List Char → α → Prop} {f : Effect R → Option α}
  {entries : List (List Char)} {es : List (Effect R)}

theorem not_asks_of_filterMap (h : List.Forall₂ (fun entry e => ∀ a, f e = some a ↔ asks entry a) entries es)
    (hnil : es.filterMap f = []) : ∀ entry ∈ entries, ∀ a, ¬asks entry a := by
  intro entry hentry a ha
  obtain ⟨e, he, hask⟩ := exists_of_forall₂ h.flip hentry
  have hmem : a ∈ es.filterMap f := List.mem_filterMap.2 ⟨e, he, (hask a).2 ha⟩
  rw [hnil] at hmem
  cases hmem

/-- The last effect that is selected comes from the last entry that asks for one. -/
theorem exists_last (h : List.Forall₂ (fun entry e => ∀ a, f e = some a ↔ asks entry a) entries es) {a : α}
    (ha : (es.filterMap f).getLast? = some a) : ∃ before entry after, entries = before ++ entry :: after ∧
      asks entry a ∧ ∀ other ∈ after, ∀ b, ¬asks other b := by
  induction h with
  | nil => cases ha
  | @cons entry e entries es hask hrest ih =>
    by_cases hnil : es.filterMap f = []
    · cases hf : f e with
      | none =>
        rw [List.filterMap_cons_none hf, hnil] at ha
        cases ha
      | some x =>
        rw [List.filterMap_cons_some hf, hnil] at ha
        obtain rfl := Option.some.inj ha
        exact ⟨[], entry, entries, rfl, (hask x).1 hf, not_asks_of_filterMap hrest hnil⟩
    · have hlast : ((e :: es).filterMap f).getLast? = (es.filterMap f).getLast? := by
        obtain ⟨x, xs, hxs⟩ := List.exists_cons_of_ne_nil hnil
        cases hf : f e with
        | none => rw [List.filterMap_cons_none hf]
        | some y => rw [List.filterMap_cons_some hf, hxs, List.getLast?_cons_cons]
      obtain ⟨before, entry', after, rfl, hasks, hafter⟩ := ih (hlast.symm.trans ha)
      exact ⟨entry :: before, entry', after, rfl, hasks, hafter⟩

theorem lastWins_lastEffect (default : α)
    (h : List.Forall₂ (fun entry e => ∀ a, f e = some a ↔ asks entry a) entries es) :
    LastWins asks default entries (lastEffect f default es) := by
  unfold lastEffect
  cases hl : (es.filterMap f).getLast? with
  | none => exact .inr ⟨rfl, not_asks_of_filterMap h (List.getLast?_eq_none_iff.1 hl)⟩
  | some a => exact .inl (exists_last h hl)

theorem firstWins_find? {asked : α → Prop} {p : α → Bool} (hp : ∀ a, p a = true ↔ asked a) (default : α)
    (choices : List α) : FirstWins asked default choices ((choices.find? p).getD default) := by
  cases hf : choices.find? p with
  | none =>
    refine .inr ⟨rfl, fun b hb hasked => ?_⟩
    exact absurd ((hp b).2 hasked) (by simpa using List.find?_eq_none.1 hf b hb)
  | some a =>
    obtain ⟨ha, before, after, rfl, hbefore⟩ := List.find?_eq_some_iff_append.1 hf
    refine .inl ⟨before, after, rfl, (hp a).1 ha, fun b hb hasked => ?_⟩
    have hno := hbefore b hb
    rw [(hp b).2 hasked] at hno
    cases hno

end

namespace DrawOptions

/-- The kinds of stroke among some effects. -/
def strokesOf (es : List (Effect R)) : List String :=
  es.filterMap fun e => match e with
    | .stroke k => some k
    | _ => none

theorem mem_strokesOf {entries : List (List Char)} {es : List (Effect R)} (h : List.Forall₂ Says entries es)
    (k : String) : k ∈ strokesOf es ↔ ∃ entry ∈ entries, Asks entry (Effect.stroke k : Effect R) := by
  have hmem : k ∈ strokesOf es ↔ Effect.stroke k ∈ es := by
    refine List.mem_filterMap.trans ⟨?_, fun he => ⟨_, he, rfl⟩⟩
    rintro ⟨e, he, hk⟩
    cases e <;> cases hk
    exact he
  rw [hmem]
  constructor
  · intro he
    obtain ⟨entry, hentry, hsay⟩ := exists_of_forall₂ h he
    exact ⟨entry, hentry, (hsay _).2 ⟨rfl, by simp⟩⟩
  · rintro ⟨entry, hentry, hasks⟩
    obtain ⟨e, he, hsay⟩ := exists_of_forall₂ h.flip hentry
    obtain ⟨rfl, -⟩ := (hsay _).1 hasks
    exact he

/-- What entries are read as makes the options that they mean. -/
theorem means_ofEffects (defaultWidth : Value R) {entries : List (List Char)} {es : List (Effect R)}
    (h : List.Forall₂ Says entries es) : (ofEffects defaultWidth es).Means defaultWidth entries := by
  -- Each of the three requests is one form of effect.
  have select {α : Type} {f : Effect R → Option α} {g : α → Effect R}
      (hf : ∀ e a, f e = some a ↔ e = g a) (hg : ∀ a, g a ≠ .nothing) :
      List.Forall₂ (fun entry e => ∀ a, f e = some a ↔ Asks entry (g a)) entries es := by
    refine h.imp fun entry e hsay a => ?_
    rw [hf, hsay]
    exact (and_iff_left (hg a)).symm
  constructor
  case strokeWidth => exact lastWins_lastEffect _ (select (by rintro (_ | _ | _ | _ | _) a <;> simp) (by simp))
  case color => exact lastWins_lastEffect _ (select (by rintro (_ | _ | _ | _ | _) a <;> simp) (by simp))
  case arrow => exact lastWins_lastEffect _ (select (by rintro (_ | _ | _ | _ | _) a <;> simp) (by simp))
  case strokeKind =>
    refine firstWins_find? (fun k => ?_) "solid" strokePrecedence
    rw [List.contains_iff_mem]
    exact mem_strokesOf h k

omit [Arithmetic R] in
/-- The kind of stroke depends on which kinds are asked for only. -/
theorem strokeKind_congr {es fs : List (Effect R)} (h : ∀ k, k ∈ strokesOf es ↔ k ∈ strokesOf fs)
    (w : Value R) : (ofEffects w es).strokeKind = (ofEffects w fs).strokeKind := by
  have hsame : (strokesOf es).contains = (strokesOf fs).contains := by
    funext k
    rw [Bool.eq_iff_iff, List.contains_iff_mem, List.contains_iff_mem]
    exact h k
  show (strokePrecedence.find? (strokesOf es).contains).getD "solid" =
    (strokePrecedence.find? (strokesOf fs).contains).getD "solid"
  rw [hsame]

omit [Arithmetic R] in
/-- Nothing is changed by what asks for nothing. -/
theorem ofEffects_nothing (w : Value R) (es fs : List (Effect R)) :
    ofEffects w (es ++ .nothing :: fs) = ofEffects w (es ++ fs) := by
  simp [ofEffects, lastEffect]

end DrawOptions

/-! ### Lists of entries -/

/-- Entries are read as what they ask for, unless one of them is faulty. -/
theorem readEntries_cases {entries : List (List Char)} (hs : ∀ entry ∈ entries, HasShortColor entry) :
    ((∃ entry ∈ entries, IsFaulty R entry) ∧
        ∃ c, (readEntries entries : Logged R (List (Effect R))).result = .error (.refused c)) ∨
      (∀ entry ∈ entries, ¬IsFaulty R entry) ∧ ∃ es : List (Effect R),
        (readEntries entries).result = .ok es ∧ List.Forall₂ Says entries es := by
  induction entries with
  | nil => exact .inr ⟨by simp, [], rfl, .nil⟩
  | cons entry entries ih =>
    obtain ⟨hs, hrest⟩ := List.forall_mem_cons.1 hs
    rw [readEntries, Logged.result_bind]
    by_cases hfaulty : IsFaulty R entry
    · obtain ⟨c, hc⟩ := readEntry_of_isFaulty hfaulty
      refine .inl ⟨⟨entry, List.mem_cons_self, hfaulty⟩, c, ?_⟩
      rw [hc]
      rfl
    · obtain ⟨e, he⟩ := exists_readEntry hs hfaulty
      rw [he, ok_bind, Logged.result_bind]
      rcases ih hrest with ⟨⟨other, hother, hf⟩, c, hc⟩ | ⟨hnone, es, hes, hsay⟩
      · refine .inl ⟨⟨other, List.mem_cons_of_mem _ hother, hf⟩, c, ?_⟩
        rw [hc]
        rfl
      · refine .inr ⟨List.forall_mem_cons.2 ⟨hfaulty, hnone⟩, e :: es, ?_, .cons (asks_iff hs he) hsay⟩
        rw [hes]
        rfl

/-- The entries of a list are read one after the other. -/
theorem result_readEntries_append (ws us : List (List Char)) :
    (readEntries (ws ++ us) : Logged R (List (Effect R))).result =
      (readEntries ws).result >>= fun es => (readEntries us).result >>= fun fs => .ok (es ++ fs) := by
  induction ws with
  | nil =>
    show (readEntries us).result = (readEntries us).result >>= fun fs => .ok fs
    rcases (readEntries us : Logged R (List (Effect R))).result with e | fs
    · rfl
    · rfl
  | cons w ws ih =>
    rw [List.cons_append, readEntries, readEntries, Logged.result_bind, Logged.result_bind]
    rcases (readEntry w : Logged R (Effect R)).result with e | e
    · rfl
    rw [ok_bind, ok_bind, Logged.result_bind, Logged.result_bind, ih]
    rcases (readEntries ws : Logged R (List (Effect R))).result with f | es
    · rfl
    rcases (readEntries us : Logged R (List (Effect R))).result with f | fs
    · rfl
    · rfl

namespace DrawOptions

theorem result_read (codec : Codec R) (raw : String) :
    (read (.text raw) codec.given).result =
      (readEntries (splitOptions raw.toList)).result.map (ofEffects codec.defaultStrokeWidth) := by
  unfold read
  simp only [Logged.result_bind]
  show ((readEntries (splitOptions raw.toList) : Logged R (List (Effect R))).result >>= _) = _
  rcases (readEntries (splitOptions raw.toList) : Logged R (List (Effect R))).result with e | es
  · rfl
  · rfl

/-- Option lists with the same entries, in any order and any number of times each, agree on the kind of
stroke. -/
theorem exists_read_of_sameEntries (codec : Codec R) {raw raw' : String}
    (hs : ∀ entry ∈ splitOptions raw.toList, HasShortColor entry)
    (hsame : ∀ entry, entry ∈ splitOptions raw'.toList ↔ entry ∈ splitOptions raw.toList)
    {o : DrawOptions R} (h : (read (.text raw) codec.given).result = .ok o) :
    ∃ o', (read (.text raw') codec.given).result = .ok o' ∧ o'.strokeKind = o.strokeKind := by
  rw [result_read] at h ⊢
  have hs' : ∀ entry ∈ splitOptions raw'.toList, HasShortColor entry :=
    fun entry he => hs entry ((hsame entry).1 he)
  rcases readEntries_cases (R := R) hs with ⟨-, c, hc⟩ | ⟨hsound, es, hes, hsay⟩
  · rw [hc] at h
    cases h
  rw [hes] at h
  obtain rfl := Except.ok.inj h
  rcases readEntries_cases (R := R) hs' with ⟨⟨entry, he, hf⟩, -⟩ | ⟨-, fs, hfs, hsay'⟩
  · exact absurd hf (hsound entry ((hsame entry).1 he))
  refine ⟨_, by rw [hfs]; rfl, strokeKind_congr (fun k => ?_) _⟩
  rw [mem_strokesOf hsay, mem_strokesOf hsay']
  exact exists_congr fun entry => and_congr_left fun _ => hsame entry

/-- An entry that is passed over can be left out. -/
theorem result_read_without (codec : Codec R) {raw raw' : String} {before after : List (List Char)}
    {entry : List Char} (h : splitOptions raw.toList = before ++ entry :: after)
    (h' : splitOptions raw'.toList = before ++ after)
    (hread : (readEntry entry : Logged R (Effect R)).result = .ok .nothing) :
    (read (.text raw') codec.given).result = (read (.text raw) codec.given : Logged R _).result := by
  rw [result_read, result_read, h, h', result_readEntries_append, result_readEntries_append, readEntries,
    Logged.result_bind, hread, ok_bind, Logged.result_bind]
  rcases (readEntries before : Logged R (List (Effect R))).result with f | es
  · rfl
  rcases (readEntries after : Logged R (List (Effect R))).result with f | fs
  · rfl
  · exact congrArg Except.ok (ofEffects_nothing _ es fs).symm

/-- An option list is refused if and only if an entry is faulty; otherwise it is read as what its entries
mean.  The kind of stroke does not change if entries are reordered or repeated, and entries that ask for
nothing can be left out. -/
theorem read_means (codec : Codec R) {raw : String}
    (hs : ∀ entry ∈ splitOptions raw.toList, HasShortColor entry) :
    ((∃ c, (read (.text raw) codec.given).result = .error (.refused c)) ↔
        ∃ entry ∈ splitOptions raw.toList, IsFaulty R entry) ∧
      ((∀ entry ∈ splitOptions raw.toList, ¬IsFaulty R entry) → ∃ o : DrawOptions R,
        (read (.text raw) codec.given).result = .ok o ∧
          o.Means codec.defaultStrokeWidth (splitOptions raw.toList)) ∧
      (∀ (raw' : String) (o : DrawOptions R),
        (∀ entry, entry ∈ splitOptions raw'.toList ↔ entry ∈ splitOptions raw.toList) →
        (read (.text raw) codec.given).result = .ok o →
        ∃ o', (read (.text raw') codec.given).result = .ok o' ∧ o'.strokeKind = o.strokeKind) ∧
      ∀ (raw' : String) (before : List (List Char)) (entry : List Char) (after : List (List Char)),
        splitOptions raw.toList = before ++ entry :: after → splitOptions raw'.toList = before ++ after →
        (∀ e : Effect R, ¬Asks entry e) → ¬IsFaulty R entry →
        (read (.text raw') codec.given).result = (read (.text raw) codec.given).result := by
  refine ⟨?_, ?_, fun raw' o hsame h => exists_read_of_sameEntries codec hs hsame h, ?_⟩
  · rw [result_read]
    rcases readEntries_cases (R := R) hs with ⟨hfaulty, c, hc⟩ | ⟨hsound, es, hes, -⟩
    · rw [hc]
      exact ⟨fun _ => hfaulty, fun _ => ⟨c, rfl⟩⟩
    · rw [hes]
      constructor
      · rintro ⟨c, ⟨⟩⟩
      · rintro ⟨entry, he, hf⟩
        exact absurd hf (hsound entry he)
  · intro hsound
    rw [result_read]
    rcases readEntries_cases (R := R) hs with ⟨⟨entry, he, hf⟩, -⟩ | ⟨-, es, hes, hsay⟩
    · exact absurd hf (hsound entry he)
    · exact ⟨_, by rw [hes]; rfl, means_ofEffects _ hsay⟩
  · intro raw' before entry after h h' hasks hfaulty
    refine result_read_without codec h h' ?_
    rcases readEntry_cases (R := R) entry with ⟨e, he⟩ | hf | hnothing
    · exact absurd he (hasks e)
    · exact absurd hf hfaulty
    · exact hnothing

/-- A colour by its components, a width, an arrow and a kind of stroke. -/
theorem read_means_mixed :
    (∀ entry ∈ splitOptions "draw=\x7brgb,255:red,1;green,2;blue,3\x7d,line width=1.5pt,->,dotted".toList,
        HasShortColor entry) ∧
      ∃ o : DrawOptions Exact,
        (read (.text "draw=\x7brgb,255:red,1;green,2;blue,3\x7d,line width=1.5pt,->,dotted")
          Codec.standard.given).result = .ok o ∧
        o.Means Codec.standard.defaultStrokeWidth (splitOptions
          "draw=\x7brgb,255:red,1;green,2;blue,3\x7d,line width=1.5pt,->,dotted".toList) := by
  have hs : ∀ entry ∈ splitOptions
      "draw=\x7brgb,255:red,1;green,2;blue,3\x7d,line width=1.5pt,->,dotted".toList,
      HasShortColor entry := by decide +kernel
  obtain ⟨o, ho⟩ := exists_of_isOk (x := (read
    (.text "draw=\x7brgb,255:red,1;green,2;blue,3\x7d,line width=1.5pt,->,dotted")
    Codec.standard.given : Logged Exact _).result) (by decide +kernel)
  obtain ⟨hrefused, hread, -⟩ := read_means (R := Exact) Codec.standard hs
  refine ⟨hs, hread fun entry he hf => ?_⟩
  obtain ⟨c, hc⟩ := hrefused.2 ⟨entry, he, hf⟩
  cases ho.symm.trans hc

end DrawOptions

end FeynmanTikz
