/-
The entries of option lists: what the writer writes is what the reader asks for.

* `carries_color` and `carries_width`: the entries of a colour and of a width,
* `carries_stroke` and `carries_arrow`: the entries of a stroke kind and of an arrow style,
* `ofEffects_edge`: the options that all effects of an edge together make,
* `arrowOfComment_some`: a comment carries the style it is written for.

Design notes.
* Only the digits of colours and widths vary.  All other entries are closed texts, so what they ask
  for is found by running the reader.
-/
import FeynmanTikz.Proofs.Tikz.Options

namespace FeynmanTikz

/-! ### Texts without blanks and brackets -/

theorem settles_inert {d : Int} : ∀ {t : List Char},
    (∀ c ∈ t, c ≠ '\\' ∧ c ≠ '\x7b' ∧ c ≠ '[' ∧ c ≠ '\x7d' ∧ c ≠ ']' ∧ (c = ',' → d ≠ 0)) →
    settles d t = some d
  | [], _ => rfl
  | c :: t, h => by
    obtain ⟨h1, h2, h3, h4, h5, h6⟩ := h c List.mem_cons_self
    rw [settles_cons h1, if_neg (by simp [h2, h3]), if_neg (by simp [h4, h5]),
      if_neg fun hc => h6 hc.1 hc.2]
    exact settles_inert fun e he => h e (List.mem_cons_of_mem _ he)

/-- A text that starts and ends in other characters than blanks has none to be trimmed. -/
theorem trim_of_ends {t : List Char} {c e : Char} (hs : t.head? = some c) (hc : isBlank c = false)
    (he : t.getLast? = some e) (hb : isBlank e = false) : trim t = t := by
  have hleft : trimLeft t = t := by
    obtain ⟨u, rfl⟩ := List.head?_eq_some_iff.1 hs
    rw [trimLeft, List.dropWhile_cons, if_neg (by rw [hc]; decide)]
  rw [trim, hleft]
  obtain ⟨u, rfl⟩ := List.getLast?_eq_some_iff.1 he
  have hd := dropEndWhile_concat isBlank u [] e hb (by simp)
  rwa [List.append_nil] at hd

theorem keyValue?_append {key : List Char} (hk : '=' ∉ key) (value : List Char) :
    keyValue? (key ++ '=' :: value) = some (key, value) := by
  have hkey : (key ++ '=' :: value).takeWhile (fun c => decide (c ≠ '=')) = key := by
    rw [List.takeWhile_append_of_pos fun c hc => by
      rw [decide_eq_true_eq]
      rintro rfl
      exact hk hc]
    simp
  unfold keyValue?
  rw [if_pos (by simp)]
  dsimp only
  rw [hkey, ← List.drop_drop, List.drop_left]
  rfl

theorem after?_append (word : String) (t : List Char) :
    after? word.toList (word.toList ++ t) = some t := by
  simp [after?]

theorem someDigits?_append {ds t : List Char} (hd : AreDigits ds) (hne : ds ≠ [])
    (ht : ∀ c, t.head? = some c → isDecimalDigit c = false) :
    someDigits? (ds ++ t) = some (ds, t) := by
  unfold someDigits?
  rw [spanDigits_append (fun _ hc => hd.isDecimalDigit hc) ht]
  cases ds with
  | nil => exact absurd rfl hne
  | cons c ds => rfl

/-! ### Colours -/

/-- The components of a colour as they are written. -/
def componentsText (r g b : Nat) : List Char :=
  "rgb,255:red,".toList ++ (decimalDigits r ++ (";green,".toList ++ (decimalDigits g ++
    (";blue,".toList ++ decimalDigits b))))

/-- A colour as it is written. -/
def rgbText (r g b : Nat) : List Char := '\x7b' :: (componentsText r g b ++ ['\x7d'])

theorem rgbDigits?_rgbText (r g b : Nat) :
    rgbDigits? (rgbText r g b) = some [decimalDigits r, decimalDigits g, decimalDigits b] := by
  have hd (n : Nat) {t : List Char} (ht : ∀ c, t.head? = some c → isDecimalDigit c = false) :
      someDigits? (decimalDigits n ++ t) = some (decimalDigits n, t) :=
    someDigits?_append (areDigits_decimalDigits n) (decimalDigits_ne_nil n) ht
  unfold rgbDigits? rgbText componentsText
  rw [dropOptional, if_pos rfl]
  simp only [Option.bind_eq_bind, List.append_assoc, after?_append, Option.bind_some]
  rw [hd r (by rintro c ⟨⟩; decide)]
  simp only [after?_append, Option.bind_some]
  rw [hd g (by rintro c ⟨⟩; decide)]
  simp only [after?_append, Option.bind_some]
  rw [hd b (by rintro c ⟨⟩; decide)]
  rfl

/-- The words around the components of a colour. -/
def componentWords : List Char :=
  "rgb,255:red,".toList ++ (";green,".toList ++ ";blue,".toList)

/-- What holds of the words around the components and of digits holds of all characters. -/
theorem forall_mem_componentsText {P : Char → Prop} (r g b : Nat) (hw : ∀ c ∈ componentWords, P c)
    (hd : ∀ c, c.isDigit = true → P c) : ∀ c ∈ componentsText r g b, P c := by
  have hdigits (n : Nat) : ∀ c ∈ decimalDigits n, P c :=
    fun c h => hd c (areDigits_decimalDigits n c h)
  intro c h
  unfold componentsText at h
  unfold componentWords at hw
  simp only [List.mem_append] at h hw
  rcases h with h | h | h | h | h | h
  · exact hw c (.inl h)
  · exact hdigits r c h
  · exact hw c (.inr (.inl h))
  · exact hdigits g c h
  · exact hw c (.inr (.inr h))
  · exact hdigits b c h

theorem forall_mem_rgbText {P : Char → Prop} {r g b : Nat} (ho : P '\x7b') (hc : P '\x7d')
    (h : ∀ c ∈ componentsText r g b, P c) : ∀ c ∈ rgbText r g b, P c := by
  intro c hm
  simp only [rgbText, List.mem_cons, List.mem_append, List.not_mem_nil, or_false] at hm
  rcases hm with rfl | hm | rfl
  · exact ho
  · exact h c hm
  · exact hc

variable {R : Type} [Arithmetic R]

omit [Arithmetic R] in
theorem component_decimalDigits {n : Nat} (hn : n ≤ 255) :
    component (R := R) (decimalDigits n) = .ok (.int n) := by
  have hlen : (decimalDigits n).length ≤ 3 :=
    (Nat.length_toDigits_le_iff (by decide) (by decide)).2 (by omega)
  unfold component
  rw [if_neg (by unfold digitLimit; omega), digitsValue_decimalDigits]

omit [Arithmetic R] in
theorem readColor_rgbText {r g b : Nat} (hr : r ≤ 255) (hg : g ≤ 255) (hb : b ≤ 255) :
    readColor (R := R) (rgbText r g b) = .ok (some (rgb r g b)) := by
  have hcompact : withoutBlanks (rgbText r g b) = rgbText r g b := by
    refine List.filter_eq_self.2 (forall_mem_rgbText rfl rfl
      (forall_mem_componentsText r g b (by decide) fun c hc => ?_))
    rw [isBlank_of_isDigit hc]
    rfl
  unfold readColor
  simp only [hcompact, rgbDigits?_rgbText, List.mapM_cons, List.mapM_nil,
    component_decimalDigits hr, component_decimalDigits hg, component_decimalDigits hb]
  rfl

/-- This is how a colour is written. -/
theorem tikzColor_eq {v : Value R} {r g b : Nat} (hv : IsTriple v r g b) :
    tikzColor v = .ok (String.ofList (rgbText r g b)) := by
  have hplain (n : Nat) : (Value.int n : Value R).plain = String.ofList (decimalDigits n) := rfl
  have hitems : v.expectMembers = .ok [.int r, .int g, .int b] := by
    rcases hv with rfl | rfl <;> rfl
  unfold tikzColor
  rw [hitems]
  simp only [ok_bind, hplain]
  refine congrArg Except.ok (String.toList_inj.1 ?_)
  unfold rgbText componentsText
  simp [inBraces]

theorem not_isDigit_of {c : Char} (hc : c.isDigit = true) {d : Char} (hd : d.isDigit = false) :
    c ≠ d := by
  rintro rfl
  rw [hc] at hd
  cases hd

theorem settles_componentsText (r g b : Nat) :
    settles 1 (componentsText r g b) = some 1 := by
  refine settles_inert (forall_mem_componentsText r g b (by decide) fun c hc => ?_)
  exact ⟨not_isDigit_of hc rfl, not_isDigit_of hc rfl, not_isDigit_of hc rfl, not_isDigit_of hc rfl,
    not_isDigit_of hc rfl, fun _ => by decide⟩

theorem passes_componentsText (r g b : Nat) :
    passes [.brace, .square] (componentsText r g b) = some [.brace, .square] := by
  refine passes_inert (forall_mem_componentsText r g b (by decide) fun c hc => ?_)
  refine ⟨not_isDigit_of hc rfl, ?_, ?_⟩
  · simp [opens?, not_isDigit_of hc (d := '\x7b') rfl]
  · simp [closes, not_isDigit_of hc (d := '\x7d') rfl]

theorem carries_color {r g b : Nat} (hr : r ≤ 255) (hg : g ≤ 255) (hb : b ≤ 255) :
    Carries ("draw=".toList ++ rgbText r g b) (.color (rgb r g b) : Effect R) := by
  have htrim : trim (rgbText r g b) = rgbText r g b := by
    refine trim_of_ends (c := '\x7b') (e := '\x7d') rfl rfl ?_ rfl
    rw [rgbText, ← List.cons_append, List.getLast?_concat]
  refine ⟨⟨?_, ?_, by simp⟩, ?_, ?_, ?_⟩
  · rw [settles_append (e := 0) rfl]
    show settles 1 (componentsText r g b ++ ['\x7d']) = _
    rw [settles_append (settles_componentsText r g b)]
    rfl
  · refine trim_of_ends (c := 'd') (e := '\x7d') rfl rfl ?_ rfl
    rw [rgbText, ← List.cons_append, ← List.append_assoc, List.getLast?_concat]
  · refine OneLine.append (by decide) (forall_mem_rgbText rfl rfl
      (forall_mem_componentsText r g b (by decide) fun c hc => ?_))
    exact (show AreDigits [c] by simpa [AreDigits] using hc).oneLine c (by simp)
  · rw [passes_append (r := [.square]) rfl]
    show passes [.brace, .square] (componentsText r g b ++ ['\x7d']) = _
    rw [passes_append (passes_componentsText r g b)]
    rfl
  · show (readEntry ("draw".toList ++ '=' :: rgbText r g b)).result = _
    unfold readEntry
    rw [keyValue?_append (by decide)]
    show (readSetting _ "draw".toList (rgbText r g b)).result = _
    unfold readSetting
    rw [show String.ofList (lower (squeeze "draw".toList)) = "draw" by decide, htrim]
    dsimp only
    rw [if_pos (.inl rfl), readColor_rgbText hr hg hb]
    rfl

/-! ### Widths -/

theorem carries_width {h : Hundredths} (hs : Measure.lineWidth.Accepts R h) :
    Carries ("line width=".toList ++ (h.text ++ "pt".toList))
      (.width (.real (Measure.lineWidth.value h)) : Effect R) := by
  have hlast : (h.text ++ "pt".toList).getLast? = some 't' := by
    rw [show h.text ++ "pt".toList = h.text ++ ['p'] ++ ['t'] by simp, List.getLast?_concat]
  obtain ⟨c, more, hc, -⟩ := h.head_text
  have hblank : isBlank c = false :=
    Hundredths.isBlank_of_mem_text (h := h) (by rw [hc]; exact List.mem_cons_self)
  have htrim : trim (h.text ++ "pt".toList) = h.text ++ "pt".toList :=
    trim_of_ends (c := c) (e := 't') (by rw [hc]; rfl) hblank hlast rfl
  -- A numeral is made of digits, a point and a minus sign; none of them means anything here.
  have hchars {P : Char → Prop} (hminus : P '-') (hpoint : P '.')
      (hd : ∀ c, c.isDigit = true → P c) : ∀ c ∈ h.text, P c := by
    intro c hc
    rcases Hundredths.isDigit_or_of_mem_text hc with rfl | rfl | hc
    · exact hminus
    · exact hpoint
    · exact hd c hc
  refine ⟨⟨?_, ?_, by simp⟩, ?_, ?_, ?_⟩
  · rw [settles_append (e := 0) rfl, settles_append (e := 0) (settles_inert ?_)]
    · rfl
    · refine hchars (by decide) (by decide) fun c hc => ?_
      exact ⟨not_isDigit_of hc rfl, not_isDigit_of hc rfl, not_isDigit_of hc rfl,
        not_isDigit_of hc rfl, not_isDigit_of hc rfl, fun he => absurd he (not_isDigit_of hc rfl)⟩
  · refine trim_of_ends (c := 'l') (e := 't') rfl rfl ?_ rfl
    rw [List.getLast?_append, hlast]
    rfl
  · refine OneLine.append (by decide) (OneLine.append (hchars rfl rfl fun c hc => ?_) (by decide))
    exact (show AreDigits [c] by simpa [AreDigits] using hc).oneLine c (by simp)
  · rw [passes_append (r := [.square]) rfl, passes_append (r := [.square]) (passes_inert ?_)]
    · rfl
    · refine hchars (by decide) (by decide) fun c hc => ⟨not_isDigit_of hc rfl, ?_, ?_⟩
      · simp [opens?, not_isDigit_of hc (d := '\x7b') rfl, not_isDigit_of hc (d := '[') rfl]
      · simp [closes, not_isDigit_of hc (d := '\x7d') rfl, not_isDigit_of hc (d := ']') rfl]
  · show (readEntry ("line width".toList ++ '=' :: (h.text ++ "pt".toList))).result = _
    unfold readEntry
    rw [keyValue?_append (by decide)]
    show (readSetting _ "line width".toList (h.text ++ "pt".toList)).result = _
    unfold readSetting
    rw [show String.ofList (lower (squeeze "line width".toList)) = "line width" by decide, htrim]
    dsimp only
    rw [if_neg (by decide), if_pos rfl, (h.readWidth_text _).2 ⟨hs.1, hs.2, rfl⟩]
    rfl

/-! ### Stroke kinds and arrow styles -/

/-- Whether a text can be an entry. -/
def fits (w : List Char) : Bool :=
  settles 0 w == some 0 && trim w == w && !w.isEmpty && w.all (!isLineBoundary ·) &&
    passes [.square] w == some [.square]

/-- What a closed entry asks for is found by running the reader. -/
theorem Carries.of_fits {w : List Char} {e : Effect R} (hw : fits w = true)
    (hr : (readEntry w : Logged R _).result = .ok e) : Carries w e := by
  simp only [fits, Bool.and_eq_true, beq_iff_eq, Bool.not_eq_true', List.isEmpty_eq_false_iff,
    List.all_eq_true] at hw
  obtain ⟨⟨⟨⟨hs, ht⟩, hne⟩, ho⟩, hp⟩ := hw
  exact ⟨⟨hs, ht, hne⟩, ho, hp, hr⟩

variable (R) in
/-- The entries of a stroke kind. -/
def strokeEntries (kind : String) : List (List Char) :=
  match strokeOptions (.text kind : Value R) with
  | .ok ws => ws.map String.toList
  | .error _ => []

/-- What the entries of a stroke kind ask for. -/
def strokeEffects : String → List (Effect R)
  | "dashed" => [.stroke "dashed"]
  | "dotted" => [.stroke "dotted"]
  | "wavy" => [.nothing, .stroke "wavy"]
  | "spring" => [.nothing, .stroke "spring"]
  | _ => []

theorem strokeOptions_eq {kind : String} (hk : kind ∈ strokeKinds) :
    strokeOptions (.text kind : Value R) = .ok ((strokeEntries R kind).map String.ofList) := by
  simp only [strokeKinds, List.mem_cons, List.not_mem_nil, or_false] at hk
  rcases hk with rfl | rfl | rfl | rfl | rfl <;> rfl

theorem carries_stroke {kind : String} (hk : kind ∈ strokeKinds) :
    List.Forall₂ (Carries (R := R)) (strokeEntries R kind) (strokeEffects kind) := by
  simp only [strokeKinds, List.mem_cons, List.not_mem_nil, or_false] at hk
  rcases hk with rfl | rfl | rfl | rfl | rfl
  · exact .nil
  · exact .cons (.of_fits rfl rfl) .nil
  · exact .cons (.of_fits rfl rfl) .nil
  · exact .cons (.of_fits rfl rfl)
      (.cons (.of_fits rfl rfl) .nil)
  · exact .cons (.of_fits rfl rfl)
      (.cons (.of_fits rfl rfl) .nil)

variable (R) in
/-- The entries of an arrow style. -/
def arrowEntries (arrow : String) : List (List Char) :=
  (arrowOptions (.text arrow : Value R) Codec.standard.tipName).map String.toList

/-- What the entries of an arrow style ask for.  One in the middle of an edge is not seen. -/
def arrowEffects : String → List (Effect R)
  | "none" => []
  | "mid-forward" | "mid-backward" | "mid-cross" => [.nothing]
  | arrow => [.arrow arrow]

/-- The tip of an arrow as it is written. -/
def tipText : String := inBraces "Stealth"

/-- A text that can stand where the body of a mark does. -/
structure Nests (t : List Char) : Prop where
  settled : settles 3 t = some 3
  passed : passes [.brace, .brace, .brace, .square] t = some [.brace, .brace, .brace, .square]
  oneLine : OneLine t

theorem Nests.append {t u : List Char} (ht : Nests t) (hu : Nests u) : Nests (t ++ u) :=
  ⟨by rw [settles_append ht.settled, hu.settled], by rw [passes_append ht.passed, hu.passed],
    ht.oneLine.append hu.oneLine⟩

theorem nests_crossMark : Nests crossMark.toList := by
  unfold crossMark
  simp only [String.toList_append]
  refine ((((Nests.append ?_ ?_).append ?_).append ?_).append ?_).append ?_
  all_goals exact ⟨rfl, rfl, by decide⟩

/-- The body of a mark stands in three pairs of braces. -/
theorem toList_midMark (body : String) : (midMark body).toList = "postaction=".toList ++ ("\x7b".toList ++
    ("decorate, decoration=".toList ++ ("\x7b".toList ++ ("markings, mark=at position 0.5 with ".toList ++
      ("\x7b".toList ++ (body.toList ++ ("\x7d".toList ++ ("\x7d".toList ++ "\x7d".toList)))))))) := by
  unfold midMark inBraces
  simp only [String.toList_append, List.append_assoc]

/-- So none of its commas is seen from outside, if it closes only what it has opened. -/
theorem settles_midMark {body : String} {d : Int} (h : settles 3 body.toList = some (d + 3)) :
    settles 0 (midMark body).toList = some d := by
  rw [toList_midMark, settles_append (e := 0) rfl, settles_append (e := 1) rfl,
    settles_append (e := 1) rfl, settles_append (e := 2) rfl, settles_append (e := 2) rfl,
    settles_append (e := 3) rfl, settles_append h]
  show some (d + 3 - 1 - 1 - 1) = _
  rw [show d + 3 - 1 - 1 - 1 = d by omega]

theorem passes_midMark {body : String}
    (h : passes [.brace, .brace, .brace, .square] body.toList = some [.brace, .brace, .brace, .square]) :
    passes [.square] (midMark body).toList = some [.square] := by
  rw [toList_midMark, passes_append (r := [.square]) rfl, passes_append (r := [.brace, .square]) rfl,
    passes_append (r := [.brace, .square]) rfl, passes_append (r := [.brace, .brace, .square]) rfl,
    passes_append (r := [.brace, .brace, .square]) rfl,
    passes_append (r := [.brace, .brace, .brace, .square]) rfl, passes_append h]
  rfl

theorem oneLine_midMark {body : String} (h : OneLine body.toList) : OneLine (midMark body).toList := by
  rw [toList_midMark]
  refine OneLine.append (by decide) (OneLine.append (by decide) (OneLine.append (by decide)
    (OneLine.append (by decide) (OneLine.append (by decide) (OneLine.append (by decide)
      (h.append (by decide)))))))

theorem trim_midMark (body : String) : trim (midMark body).toList = (midMark body).toList := by
  rw [toList_midMark]
  refine trim_of_ends (c := 'p') (e := '\x7d') rfl rfl ?_ rfl
  simp only [List.getLast?_append]
  rfl

/-- A mark is no option that is known, whatever its body. -/
theorem readEntry_midMark (body : String) :
    (readEntry (midMark body).toList : Logged R (Effect R)).result = .ok .nothing := by
  rw [toList_midMark, show "postaction=".toList = "postaction".toList ++ ['='] by decide,
    List.append_assoc, List.singleton_append]
  unfold readEntry
  rw [keyValue?_append (by decide)]
  dsimp only
  unfold readSetting
  rw [show String.ofList (lower (squeeze "postaction".toList)) = "postaction" by decide]
  dsimp only
  rw [if_neg (by decide), if_neg (by decide), if_neg (by decide)]
  rfl

theorem carries_mark {body : String} (hb : Nests body.toList) :
    Carries (midMark body).toList (.nothing : Effect R) := by
  refine ⟨⟨settles_midMark (d := 0) hb.settled, trim_midMark body, fun h => ?_⟩,
    oneLine_midMark hb.oneLine, passes_midMark hb.passed, readEntry_midMark body⟩
  rw [toList_midMark] at h
  exact absurd (List.append_eq_nil_iff.1 h).1 (by decide)

theorem carries_tips : Carries ("-" ++ tipText).toList (.arrow "forward" : Effect R) ∧
    Carries (tipText ++ "-").toList (.arrow "backward" : Effect R) ∧
    Carries (tipText ++ "-" ++ tipText).toList (.arrow "both" : Effect R) :=
  ⟨.of_fits rfl rfl, .of_fits rfl rfl, .of_fits rfl rfl⟩

theorem nests_arrow : Nests ("\\arrow" ++ tipText).toList :=
  ⟨rfl, rfl, by decide⟩

theorem nests_reversed : Nests ("\\arrow" ++ tipText ++ "[reversed]").toList :=
  ⟨rfl, rfl, by decide⟩

theorem carries_arrow {arrow : String} (ha : arrow ∈ arrowStyles) :
    List.Forall₂ (Carries (R := R)) (arrowEntries R arrow) (arrowEffects arrow) := by
  obtain ⟨hforward, hbackward, hboth⟩ := carries_tips (R := R)
  simp only [arrowStyles, List.mem_cons, List.not_mem_nil, or_false] at ha
  rcases ha with rfl | rfl | rfl | rfl | rfl | rfl | rfl
  · exact .nil
  · exact .cons hforward .nil
  · exact .cons hbackward .nil
  · exact .cons hboth .nil
  · exact .cons (carries_mark nests_arrow) .nil
  · exact .cons (carries_mark nests_reversed) .nil
  · exact .cons (carries_mark nests_crossMark) .nil

/-- The entry of the fill of an ellipse. -/
def fillEntry : List Char := "fill=gray!20".toList

theorem carries_fill : Carries fillEntry (.nothing : Effect R) := .of_fits rfl rfl

/-! ### Whole option lists -/

/-- The arrow style that tips alone tell. -/
def tipsOf (arrow : String) : String := if commentedArrows.contains arrow then "none" else arrow

omit [Arithmetic R] in
theorem ofEffects_edge {kind arrow : String} (hk : kind ∈ strokeKinds) (ha : arrow ∈ arrowStyles)
    (default color width : Value R) :
    DrawOptions.ofEffects default
        ([.color color, .width width] ++ (strokeEffects kind ++ arrowEffects arrow)) =
      ⟨kind, tipsOf arrow, color, width⟩ := by
  simp only [strokeKinds, List.mem_cons, List.not_mem_nil, or_false] at hk
  simp only [arrowStyles, List.mem_cons, List.not_mem_nil, or_false] at ha
  rcases hk with rfl | rfl | rfl | rfl | rfl <;>
    rcases ha with rfl | rfl | rfl | rfl | rfl | rfl | rfl <;> rfl

/-! ### Arrow comments -/

/-- The comment that is written for an arrow style, as it is read. -/
def arrowCommentText (arrow : String) : Option (List Char) :=
  if commentedArrows.contains arrow then some ("edge-arrow: ".toList ++ arrow.toList) else none

/-- A comment carries the arrow style it is written for. -/
theorem arrowOfComment_some {arrow : String} (ha : arrow ∈ commentedArrows) :
    (arrowOfComment standardCodec
      (.text (String.ofList ("edge-arrow: ".toList ++ arrow.toList)) : Value R)).result =
        .ok (some arrow) := by
  simp only [commentedArrows, List.mem_cons, List.not_mem_nil, or_false] at ha
  rcases ha with rfl | rfl | rfl <;> rfl

end FeynmanTikz
