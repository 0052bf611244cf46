/-
What one entry of an option list means.

`Asks entry e` says, without a reader, that an entry asks for an effect: a line width, a colour, a kind of
stroke or an arrow.  `IsFaulty R entry` says that it gives a line width that is none.  Everything else means
nothing.

* `Sets`: entries `key = value`; `WidthValue` and `ColorValue`: values that are line widths and colours,
* `NativeArrow`: tips around a dash,
* `readWidth_eq_ok`, `rgbDigits?_eq_some`, `readColor_cases`, `nativeArrow?_eq_some`: what the recognisers
  recognise,
* `readEntry_of_asks`, `readEntry_of_isFaulty`, `readEntry_cases`: so an entry is read as what it asks for,
  it is refused if it is faulty, and otherwise it is passed over,
* `asks_iff`: an entry asks for what it is read as, and for nothing else.

Design notes.
* A component of a colour with more digits than are read is refused as well.  `HasShortColor` leaves such
  entries out.
-/
import FeynmanTikz.Proofs.Number.Lexemes
import FeynmanTikz.Proofs.Tikz.Tips

namespace FeynmanTikz

/-! ### Meanings -/

/-- An entry `key = value`, cut at its first equals sign.  The key is taken in small letters and with single
spaces, the value without blanks around it. -/
def Sets (entry : List Char) (key : String) (value : List Char) : Prop :=
  ∃ k v, '=' ∉ k ∧ entry = k ++ '=' :: v ∧ String.ofList (lower (squeeze k)) = key ∧ trim v = value

/-- One digit or more, in any script. -/
structure IsDecimal (ds : List Char) : Prop where
  nonempty : ds ≠ []
  digits : ∀ c ∈ ds, isDecimalDigit c = true

/-- A colour by its components.  Each of the two braces may be there or not. -/
def IsRgb (t r g b : List Char) : Prop :=
  ∃ opening closing, (opening = [] ∨ opening = ['\x7b']) ∧ (closing = [] ∨ closing = ['\x7d']) ∧
    t = opening ++ ("rgb,255:red,".toList ++ (r ++ (";green,".toList ++ (g ++ (";blue,".toList ++
      (b ++ closing)))))) ∧
    IsDecimal r ∧ IsDecimal g ∧ IsDecimal b

/-- An angle, a group, or the name of a tip in any case. -/
inductive IsTipText : List Char → Prop
  | left : IsTipText ['<']
  | right : IsTipText ['>']
  | group {t : List Char} (h : ∀ c ∈ t, c ≠ '\x7b' ∧ c ≠ '\x7d') : IsTipText (grouped t)
  | name {t : List Char} (h : ∀ c ∈ t, isLetter c = true) (ht : lower t ∈ tipNames) : IsTipText t

/-- Tips around a dash, spaces and a final line feed aside.  Either tip may be missing. -/
def NativeArrow (entry : List Char) (style : String) : Prop :=
  ∃ left right final, (left = [] ∨ IsTipText left) ∧ (right = [] ∨ IsTipText right) ∧
    (final = [] ∨ final = ['\n']) ∧ entry.filter (· != ' ') = left ++ '-' :: (right ++ final) ∧
    arrowOfTips left right = style

/-- The last word of a flag tells the kind of its stroke. -/
def EndsIn (word : String) (entry : List Char) : Prop := word.toList <:+ lower (squeeze entry)

variable {R : Type} [Arithmetic R]

/-- Twice the number that the digits of a mantissa stand for. -/
def Mantissa.doubled (m : Mantissa) : R :=
  Arithmetic.ofDecimal (digitsValue (m.whole ++ m.fraction)) (-m.fraction.length) * Arithmetic.ofInt 2

/-- A plain decimal number of points, spaces aside, and the width of its stroke, which is finite. -/
def WidthValue (value : List Char) (w : Value R) : Prop :=
  ∃ m : Mantissa, m.IsRead ∧ value.filter (· != ' ') = m.text ++ "pt".toList ∧
    Arithmetic.isFinite (m.doubled : R) = true ∧ w = .real m.doubled

omit [Arithmetic R] in
/-- A colour by its components or by its name in any case, blanks aside. -/
inductive ColorValue (value : List Char) : Value R → Prop
  | components {r g b : List Char} (h : IsRgb (withoutBlanks value) r g b) :
    ColorValue value (.tuple [.int (digitsValue r), .int (digitsValue g), .int (digitsValue b)])
  | named {r g b : Int}
    (h : namedColors.lookup (String.ofList (lower (withoutBlanks value))) = some (r, g, b)) :
    ColorValue value (rgb r g b)

/-- What an entry asks for. -/
inductive Asks (entry : List Char) : Effect R → Prop
  | width {value : List Char} {w : Value R} (h : Sets entry "line width" value) (hw : WidthValue value w) :
    Asks entry (.width w)
  | color {key : String} {value : List Char} {c : Value R} (h : Sets entry key value)
    (hk : key = "draw" ∨ key = "color") (hc : ColorValue value c) : Asks entry (.color c)
  | wavy {value : List Char} (h : Sets entry "decoration" value)
    (hv : containsWord "snake".toList value = true) : Asks entry (.stroke "wavy")
  | spring {value : List Char} (h : Sets entry "decoration" value)
    (hv : containsWord "snake".toList value = false) (hv' : containsWord "coil".toList value = true) :
    Asks entry (.stroke "spring")
  | dashed (h : '=' ∉ entry) (hw : EndsIn "dashed" entry) : Asks entry (.stroke "dashed")
  | dotted (h : '=' ∉ entry) (hw : EndsIn "dotted" entry) : Asks entry (.stroke "dotted")
  | arrow {style : String} (h : '=' ∉ entry) (hw : ¬EndsIn "dashed" entry) (hw' : ¬EndsIn "dotted" entry)
    (ha : NativeArrow entry style) : Asks entry (.arrow style)

/-- A line width that is no plain decimal number of points, or not a finite one. -/
def IsFaulty (R : Type) [Arithmetic R] (entry : List Char) : Prop :=
  ∃ value, Sets entry "line width" value ∧ ∀ w : Value R, ¬WidthValue value w

/-- The components of a colour have no more digits than are read. -/
def HasShortColor (entry : List Char) : Prop :=
  ∀ key value r g b, Sets entry key value → key = "draw" ∨ key = "color" →
    IsRgb (withoutBlanks value) r g b →
    r.length ≤ digitLimit ∧ g.length ≤ digitLimit ∧ b.length ≤ digitLimit

/-! ### Keys and values -/

theorem keyValue?_of_notMem {entry : List Char} (h : '=' ∉ entry) : keyValue? entry = none := by
  unfold keyValue?
  rw [if_neg (by simpa using h)]

/-- An entry with an equals sign has a key and a value. -/
theorem sets_of_keyValue? {entry k v : List Char} (h : keyValue? entry = some (k, v)) :
    Sets entry (String.ofList (lower (squeeze k))) (trim v) := by
  by_cases he : '=' ∈ entry
  · obtain ⟨k', v', rfl, hk⟩ := List.eq_append_cons_of_mem he
    cases (keyValue?_append hk v').symm.trans h
    exact ⟨k, v, hk, rfl, rfl, rfl⟩
  · cases (keyValue?_of_notMem he).symm.trans h

/-! ### Line widths -/

theorem endsBefore_pt (m : Mantissa) : m.EndsBefore "pt".toList := by
  rintro c ⟨⟩
  exact ⟨by decide, fun _ => by decide⟩

/-- A line width is read as what it says, and every other one is refused. -/
theorem readWidth_eq_ok {value : List Char} {w : Value R} :
    readWidth value = .ok w ↔ WidthValue value w := by
  constructor
  · intro h
    unfold readWidth at h
    split at h
    · cases h
    rename_i m hm
    split at h
    · rename_i hrest
      dsimp only at h
      split at h
      · rename_i hfinite
        cases h
        obtain ⟨hcut, -⟩ := mantissa?_cut hm
        rw [hrest] at hcut
        exact ⟨m, mantissa?_isRead hm, hcut, hfinite, rfl⟩
      · cases h
    · cases h
  · rintro ⟨m, hm, hvalue, hfinite, rfl⟩
    unfold readWidth
    rw [hvalue, hm.again (endsBefore_pt m)]
    dsimp only
    rw [if_pos rfl]
    exact if_pos hfinite

theorem readWidth_cases (value : List Char) :
    (∃ w : Value R, readWidth value = .ok w) ∨
      ∃ c, (readWidth value : Except (Fault R) (Value R)) = .error (.refused c) := by
  unfold readWidth
  split
  · exact .inr ⟨_, rfl⟩
  split
  · dsimp only
    split
    · exact .inl ⟨_, rfl⟩
    · exact .inr ⟨_, rfl⟩
  · exact .inr ⟨_, rfl⟩

/-! ### Colours -/

omit [Arithmetic R] in
theorem after?_eq_some {word t u : List Char} : after? word t = some u ↔ t = word ++ u := by
  unfold after?
  constructor
  · intro h
    split at h
    · rename_i hw
      obtain ⟨v, rfl⟩ := List.isPrefixOf_iff_prefix.1 hw
      cases h
      rw [List.drop_left]
    · cases h
  · rintro rfl
    rw [if_pos (List.isPrefixOf_iff_prefix.2 (List.prefix_append _ _)), List.drop_left]

/-- Digits are cut off as far as they go, and there is one. -/
theorem someDigits?_eq_some {t ds rest : List Char} : someDigits? t = some (ds, rest) ↔
    t = ds ++ rest ∧ IsDecimal ds ∧ ∀ c, rest.head? = some c → isDecimalDigit c = false := by
  unfold someDigits?
  constructor
  · intro h
    split at h
    · cases h
    · rename_i hne hs
      cases h
      obtain ⟨hcut, hend⟩ := spanDigits_cut hs
      exact ⟨hcut, ⟨hne, spanDigits_digits hs⟩, hend⟩
  · rintro ⟨rfl, hds, hend⟩
    rw [spanDigits_append hds.digits hend]
    obtain ⟨c, ds, rfl⟩ := List.exists_cons_of_ne_nil hds.nonempty
    rfl

theorem dropOptional_cases (c : Char) (t : List Char) :
    ∃ o, (o = [] ∨ o = [c]) ∧ t = o ++ dropOptional c t := by
  cases t with
  | nil => exact ⟨[], .inl rfl, rfl⟩
  | cons d t =>
    by_cases hd : d = c
    · exact ⟨[c], .inr rfl, by rw [dropOptional, if_pos hd, hd, List.singleton_append]⟩
    · exact ⟨[], .inl rfl, by rw [dropOptional, if_neg hd, List.nil_append]⟩

/-- The components are found where a colour is given by them, and nowhere else. -/
theorem rgbDigits?_eq_some {t : List Char} {ds : List (List Char)} :
    rgbDigits? t = some ds ↔ ∃ r g b, ds = [r, g, b] ∧ IsRgb t r g b := by
  unfold rgbDigits?
  simp only [Option.bind_eq_bind, Option.bind_eq_some_iff, after?_eq_some, Prod.exists,
    someDigits?_eq_some]
  constructor
  · rintro ⟨t₁, h₁, r, t₂, ⟨rfl, hr, -⟩, t₃, rfl, g, t₄, ⟨rfl, hg, -⟩, t₅, rfl, b, t₆, ⟨rfl, hb, -⟩, h⟩
    obtain ⟨opening, ho, ht⟩ := dropOptional_cases '\x7b' t
    split at h
    · rename_i hclosing
      cases h
      rw [h₁] at ht
      exact ⟨r, g, b, rfl, opening, t₆, ho, hclosing, ht, hr, hg, hb⟩
    · cases h
  · rintro ⟨r, g, b, rfl, opening, closing, ho, hc, rfl, hr, hg, hb⟩
    refine ⟨_, ?_, r, _, ⟨rfl, hr, ?_⟩, _, rfl, g, _, ⟨rfl, hg, ?_⟩, _, rfl, b, closing, ⟨rfl, hb, ?_⟩, if_pos hc⟩
    · rcases ho with rfl | rfl
      · rfl
      · rfl
    · rintro c ⟨⟩
      decide
    · rintro c ⟨⟩
      decide
    · rcases hc with rfl | rfl
      · rintro c ⟨⟩
      · rintro c ⟨⟩
        decide

/-- No colour has a name that is written like components. -/
theorem not_isRgb_of_named {t r g b : List Char} {v : Int × Int × Int}
    (h : namedColors.lookup (String.ofList (lower t)) = some v) : ¬IsRgb t r g b := by
  intro hrgb
  have hcolon : ':' ∈ t := by
    obtain ⟨opening, closing, -, -, rfl, -⟩ := hrgb
    simp
  have hlower : ':' ∈ (String.ofList (lower t)).toList := by
    rw [String.toList_ofList]
    exact List.mem_map.2 ⟨':', hcolon, by decide⟩
  have hnames : ∀ p ∈ namedColors, ':' ∉ p.1.toList := by decide
  obtain ⟨l₁, l₂, heq, -⟩ := List.lookup_eq_some_iff.1 h
  have hmem : (String.ofList (lower t), v) ∈ namedColors := by
    rw [heq]
    exact List.mem_append_right _ List.mem_cons_self
  exact hnames _ hmem hlower

theorem hasShortColor_iff {entry : List Char} : HasShortColor entry ↔ ∀ p ∈ keyValue? entry,
    String.ofList (lower (squeeze p.1)) = "draw" ∨ String.ofList (lower (squeeze p.1)) = "color" →
      ∀ ds ∈ rgbDigits? (withoutBlanks (trim p.2)), ∀ d ∈ ds, d.length ≤ digitLimit := by
  constructor
  · rintro h ⟨k, v⟩ hp hkey ds hds
    obtain ⟨r, g, b, rfl, hrgb⟩ := rgbDigits?_eq_some.1 hds
    have hshort := h _ _ r g b (sets_of_keyValue? hp) hkey hrgb
    simpa using hshort
  · rintro h key value r g b ⟨k, v, hk, rfl, rfl, rfl⟩ hkey hrgb
    have hshort := h (k, v) (keyValue?_append hk v) hkey _ (rgbDigits?_eq_some.2 ⟨r, g, b, rfl, hrgb⟩)
    simpa using hshort

instance (entry : List Char) : Decidable (HasShortColor entry) := decidable_of_iff _ hasShortColor_iff.symm

omit [Arithmetic R] in
theorem component_of_length_le {ds : List Char} (h : ds.length ≤ digitLimit) :
    (component ds : Except (Fault R) (Value R)) = .ok (.int (digitsValue ds)) := by
  unfold component
  rw [if_neg (Nat.not_lt.2 h)]

omit [Arithmetic R] in
theorem readColor_of_colorValue {value : List Char} {c : Value R} (h : ColorValue value c)
    (hs : ∀ r g b, IsRgb (withoutBlanks value) r g b →
      r.length ≤ digitLimit ∧ g.length ≤ digitLimit ∧ b.length ≤ digitLimit) :
    readColor value = .ok (some c) := by
  unfold readColor
  dsimp only
  cases h with
  | @components r g b hrgb =>
    obtain ⟨hr, hg, hb⟩ := hs r g b hrgb
    rw [rgbDigits?_eq_some.2 ⟨r, g, b, rfl, hrgb⟩]
    simp [component_of_length_le hr, component_of_length_le hg, component_of_length_le hb]
  | @named r g b hname =>
    have hnone : rgbDigits? (withoutBlanks value) = none := by
      refine Option.eq_none_iff_forall_ne_some.2 fun ds hds => ?_
      obtain ⟨r', g', b', -, hrgb⟩ := rgbDigits?_eq_some.1 hds
      exact not_isRgb_of_named hname hrgb
    rw [hnone]
    dsimp only
    rw [hname]

omit [Arithmetic R] in
/-- A value that is no colour is read as none. -/
theorem readColor_cases (value : List Char) :
    (∃ c : Value R, ColorValue value c) ∨ readColor value = (.ok none : Except (Fault R) _) := by
  cases hrgb : rgbDigits? (withoutBlanks value) with
  | some ds =>
    obtain ⟨r, g, b, -, h⟩ := rgbDigits?_eq_some.1 hrgb
    exact .inl ⟨_, .components h⟩
  | none =>
    cases hname : namedColors.lookup (String.ofList (lower (withoutBlanks value))) with
    | some v => exact .inl ⟨_, .named hname⟩
    | none =>
      unfold readColor
      dsimp only
      rw [hrgb]
      dsimp only
      rw [hname]
      exact .inr rfl

/-! ### Arrows -/

theorem isTip_of_isTipText {t : List Char} (h : IsTipText t) : isTip t = true := by
  cases h with
  | left => rfl
  | right => rfl
  | group h => simp [isTip, grouped]
  | name h ht => simp [isTip, ht]

/-- What stands where a tip can is cut off the front of a text. -/
theorem append_of_spanTip {t tip rest : List Char} (h : spanTip t = (tip, rest)) : t = tip ++ rest := by
  unfold spanTip at h
  split at h
  · cases h
    rfl
  rename_i c t
  split at h
  · cases h
    rfl
  split at h
  · dsimp only at h
    split at h
    · rename_i more hdrop
      cases h
      rw [List.append_assoc, List.cons_append, List.singleton_append, ← hdrop]
      exact congrArg (c :: ·) (List.prefix_iff_eq_append.1 (List.takeWhile_prefix _)).symm
    · cases h
      rfl
  · cases h
    exact List.takeWhile_append_dropWhile.symm

/-- Letters that are a tip are the name of one. -/
theorem isTipText_of_letters {t : List Char} (hletters : ∀ c ∈ t, isLetter c = true)
    (ht : isTip t = true) : IsTipText t := by
  have hne (c : Char) (hc : isLetter c = false) : t.head? ≠ some c := by
    intro hhead
    obtain ⟨u, rfl⟩ := List.head?_eq_some_iff.1 hhead
    rw [hletters c List.mem_cons_self] at hc
    cases hc
  simp only [isTip, Bool.or_eq_true, decide_eq_true_eq, List.contains_iff_mem] at ht
  rcases ht with ((rfl | rfl) | hhead) | hname
  · exact absurd rfl (hne '<' rfl)
  · exact absurd rfl (hne '>' rfl)
  · exact absurd hhead (hne '\x7b' rfl)
  · exact .name hletters hname

/-- What has been cut off and is a tip is the text of one. -/
theorem isTipText_of_spanTip {t tip rest : List Char} (h : spanTip t = (tip, rest))
    (ht : tip = [] ∨ isTip tip = true) : tip = [] ∨ IsTipText tip := by
  unfold spanTip at h
  split at h
  · cases h
    exact .inl rfl
  rename_i c t
  split at h
  · rename_i hc
    cases h
    rcases hc with rfl | rfl
    · exact .inr .left
    · exact .inr .right
  split at h
  · rename_i hc
    dsimp only at h
    split at h
    · cases h
      subst hc
      refine .inr (.group fun d hd => ?_)
      simpa using List.all_eq_true.1 List.all_takeWhile d hd
    · cases h
      exact .inl rfl
  · cases h
    exact ht.imp_right (isTipText_of_letters (List.all_eq_true.1 List.all_takeWhile))

/-- A tip is cut off where a dash, a line feed or nothing follows it. -/
theorem spanTip_append {tip rest : List Char} (ht : tip = [] ∨ IsTipText tip)
    (hr : ∀ c, rest.head? = some c → c = '-' ∨ c = '\n') : spanTip (tip ++ rest) = (tip, rest) := by
  have hletter : ∀ c, rest.head? = some c → isLetter c = false := by
    intro c hc
    rcases hr c hc with rfl | rfl
    · rfl
    · rfl
  rcases ht with rfl | ht
  · cases rest with
    | nil => rfl
    | cons c rest =>
      rcases hr c rfl with rfl | rfl
      · rfl
      · rfl
  · cases ht with
    | left => rfl
    | right => rfl
    | group h => exact spanTip_grouped h rest
    | name h hname =>
      have hne : tip ≠ [] := by
        rintro rfl
        exact absurd hname (by decide)
      obtain ⟨c, t, rfl⟩ := List.exists_cons_of_ne_nil hne
      have hother (d : Char) (hd : isLetter d = false) : c ≠ d := by
        rintro rfl
        rw [h c List.mem_cons_self] at hd
        cases hd
      have htake := Starts.takeWhile_letters h hletter
      have hdrop : (c :: t ++ rest).dropWhile isLetter = rest := by
        have hcut := List.takeWhile_append_dropWhile (p := isLetter) (l := c :: t ++ rest)
        rw [htake] at hcut
        exact List.append_cancel_left hcut
      rw [List.cons_append] at htake hdrop ⊢
      unfold spanTip
      dsimp only
      rw [if_neg (by simp [hother '<' rfl, hother '>' rfl]), if_neg (hother '\x7b' rfl), htake, hdrop]

/-- The recogniser finds tips around a dash, and nothing else. -/
theorem nativeArrow?_eq_some {entry : List Char} {style : String} :
    nativeArrow? entry = some style ↔ NativeArrow entry style := by
  constructor
  · intro h
    unfold nativeArrow? at h
    dsimp only at h
    split at h
    · rename_i left rest hleft
      rcases hright : spanTip rest with ⟨right, final⟩
      rw [hright] at h
      dsimp only at h
      split at h
      · rename_i hfinal
        split at h
        · rename_i htips
          cases h
          refine ⟨left, right, final, isTipText_of_spanTip hleft htips.1,
            isTipText_of_spanTip hright htips.2, hfinal, ?_, rfl⟩
          rw [append_of_spanTip hleft, append_of_spanTip hright]
        · cases h
      · cases h
    · cases h
  · rintro ⟨left, right, final, hl, hr, hf, ht, rfl⟩
    have hright : spanTip (right ++ final) = (right, final) := by
      refine spanTip_append hr fun c hc => ?_
      rcases hf with rfl | rfl
      · cases hc
      · exact .inr (Option.some.inj hc).symm
    have hleft : spanTip (left ++ '-' :: (right ++ final)) = (left, '-' :: (right ++ final)) :=
      spanTip_append hl fun c hc => .inl (Option.some.inj hc).symm
    exact nativeArrow?_of_spanTip left right (by rw [ht, hleft]) hright hf
      (hl.imp_right isTip_of_isTipText) (hr.imp_right isTip_of_isTipText)

/-! ### Entries -/

theorem endsWith_eq_true {word : String} {entry : List Char} :
    endsWith word (lower (squeeze entry)) = true ↔ EndsIn word entry :=
  List.isSuffixOf_iff_suffix

/-- No word ends in both. -/
theorem EndsIn.not_dotted {entry : List Char} (h : EndsIn "dashed" entry) : ¬EndsIn "dotted" entry := by
  intro h'
  have hsuffix := List.suffix_of_suffix_length_le h h' (by decide)
  exact absurd hsuffix (by decide)

theorem readEntry_of_notMem {entry : List Char} (h : '=' ∉ entry) :
    (readEntry entry : Logged R (Effect R)) = readFlag entry := by
  unfold readEntry
  rw [keyValue?_of_notMem h]

/-- A setting is read by its key and its value. -/
theorem readEntry_of_sets {entry : List Char} {key : String} {value : List Char}
    (h : Sets entry key value) : ∃ k v, (readEntry entry : Logged R (Effect R)) = readSetting entry k v ∧
      String.ofList (lower (squeeze k)) = key ∧ trim v = value := by
  obtain ⟨k, v, hk, rfl, hkey, hvalue⟩ := h
  refine ⟨k, v, ?_, hkey, hvalue⟩
  unfold readEntry
  rw [keyValue?_append hk]

theorem readEntry_width {entry value : List Char} (h : Sets entry "line width" value) :
    (readEntry entry : Logged R (Effect R)).result = (readWidth value).map .width := by
  obtain ⟨k, v, hread, hkey, rfl⟩ := readEntry_of_sets (R := R) h
  rw [hread]
  unfold readSetting
  dsimp only
  rw [hkey, if_neg (by decide), if_pos rfl, Logged.result_bind]
  rcases (readWidth (trim v) : Except (Fault R) (Value R)) with e | w
  · rfl
  · rfl

theorem readEntry_color {entry : List Char} {key : String} {value : List Char} (h : Sets entry key value)
    (hk : key = "draw" ∨ key = "color") : (readEntry entry : Logged R (Effect R)).result =
      (readColor value).map fun o => (o.map Effect.color).getD .nothing := by
  obtain ⟨k, v, hread, hkey, rfl⟩ := readEntry_of_sets (R := R) h
  rw [hread]
  unfold readSetting
  dsimp only
  rw [hkey, if_pos hk, Logged.result_bind]
  rcases readColor (trim v) with e | _ | c
  · rfl
  · rfl
  · rfl

theorem readEntry_decoration {entry value : List Char} (h : Sets entry "decoration" value) :
    (readEntry entry : Logged R (Effect R)).result =
      if containsWord "snake".toList value then .ok (.stroke "wavy")
      else if containsWord "coil".toList value then .ok (.stroke "spring")
      else .ok .nothing := by
  obtain ⟨k, v, hread, hkey, rfl⟩ := readEntry_of_sets (R := R) h
  rw [hread]
  unfold readSetting
  dsimp only
  rw [hkey, if_neg (by decide), if_neg (by decide), if_pos rfl]
  split
  · rfl
  · split
    · rfl
    · rfl

/-- A flag is read by the word it ends in, or else as an arrow. -/
theorem readEntry_flag {entry : List Char} (h : '=' ∉ entry) : (readEntry entry : Logged R (Effect R)).result =
      if endsWith "dashed" (lower (squeeze entry)) then .ok (.stroke "dashed")
      else if endsWith "dotted" (lower (squeeze entry)) then .ok (.stroke "dotted")
      else .ok (((nativeArrow? entry).map Effect.arrow).getD .nothing) := by
  rw [readEntry_of_notMem h]
  unfold readFlag
  dsimp only
  split
  · rfl
  split
  · rfl
  cases nativeArrow? entry with
  | some style => rfl
  | none =>
    dsimp only
    split
    · rfl
    · rfl

/-- An entry is read as what it asks for. -/
theorem readEntry_of_asks {entry : List Char} {e : Effect R} (h : Asks entry e)
    (hs : HasShortColor entry) : (readEntry entry).result = .ok e := by
  cases h with
  | width h hw =>
    rw [readEntry_width h, readWidth_eq_ok.2 hw]
    rfl
  | color h hk hc =>
    rw [readEntry_color h hk, readColor_of_colorValue hc fun r g b hrgb => hs _ _ r g b h hk hrgb]
    rfl
  | wavy h hv => rw [readEntry_decoration h, if_pos hv]
  | spring h hv hv' => rw [readEntry_decoration h, if_neg (Bool.eq_false_iff.1 hv), if_pos hv']
  | dashed h hw => rw [readEntry_flag h, if_pos (endsWith_eq_true.2 hw)]
  | dotted h hw =>
    rw [readEntry_flag h, if_neg fun hd => (endsWith_eq_true.1 hd).not_dotted hw,
      if_pos (endsWith_eq_true.2 hw)]
  | arrow h hw hw' ha =>
    rw [readEntry_flag h, if_neg fun hd => hw (endsWith_eq_true.1 hd),
      if_neg fun hd => hw' (endsWith_eq_true.1 hd), nativeArrow?_eq_some.2 ha]
    rfl

/-- A faulty entry is refused. -/
theorem readEntry_of_isFaulty {entry : List Char} (h : IsFaulty R entry) :
    ∃ c, (readEntry entry : Logged R (Effect R)).result = .error (.refused c) := by
  obtain ⟨value, hsets, hno⟩ := h
  rw [readEntry_width hsets]
  rcases readWidth_cases (R := R) value with ⟨w, hw⟩ | ⟨c, hc⟩
  · exact absurd (readWidth_eq_ok.1 hw) (hno w)
  · exact ⟨c, by rw [hc]; rfl⟩

/-- Every entry asks for something, or is faulty, or is passed over. -/
theorem readEntry_cases (entry : List Char) : (∃ e : Effect R, Asks entry e) ∨ IsFaulty R entry ∨
    (readEntry entry : Logged R (Effect R)).result = .ok .nothing := by
  by_cases h : '=' ∈ entry
  · obtain ⟨k, v, rfl, hk⟩ := List.eq_append_cons_of_mem h
    have hsets : Sets (k ++ '=' :: v) (String.ofList (lower (squeeze k))) (trim v) := ⟨k, v, hk, rfl, rfl, rfl⟩
    generalize hkey : String.ofList (lower (squeeze k)) = key at hsets
    by_cases hwidth : key = "line width"
    · subst hwidth
      by_cases hw : ∃ w : Value R, WidthValue (trim v) w
      · obtain ⟨w, hw⟩ := hw
        exact .inl ⟨_, .width hsets hw⟩
      · exact .inr (.inl ⟨_, hsets, fun w h => hw ⟨w, h⟩⟩)
    by_cases hcolor : key = "draw" ∨ key = "color"
    · rcases readColor_cases (R := R) (trim v) with ⟨c, hc⟩ | hnone
      · exact .inl ⟨_, .color hsets hcolor hc⟩
      · refine .inr (.inr ?_)
        rw [readEntry_color hsets hcolor, hnone]
        rfl
    by_cases hdecoration : key = "decoration"
    · subst hdecoration
      by_cases hsnake : containsWord "snake".toList (trim v) = true
      · exact .inl ⟨_, .wavy hsets hsnake⟩
      by_cases hcoil : containsWord "coil".toList (trim v) = true
      · exact .inl ⟨_, .spring hsets (Bool.eq_false_iff.2 hsnake) hcoil⟩
      · refine .inr (.inr ?_)
        rw [readEntry_decoration hsets, if_neg hsnake, if_neg hcoil]
    · refine .inr (.inr ?_)
      unfold readEntry
      rw [keyValue?_append hk]
      dsimp only
      unfold readSetting
      dsimp only
      rw [hkey, if_neg hcolor, if_neg hwidth, if_neg hdecoration]
      rfl
  · by_cases hdashed : EndsIn "dashed" entry
    · exact .inl ⟨_, .dashed h hdashed⟩
    by_cases hdotted : EndsIn "dotted" entry
    · exact .inl ⟨_, .dotted h hdotted⟩
    cases harrow : nativeArrow? entry with
    | some style => exact .inl ⟨_, .arrow h hdashed hdotted (nativeArrow?_eq_some.1 harrow)⟩
    | none =>
      refine .inr (.inr ?_)
      rw [readEntry_flag h, if_neg fun hd => hdashed (endsWith_eq_true.1 hd),
        if_neg fun hd => hdotted (endsWith_eq_true.1 hd), harrow]
      rfl

theorem Asks.ne_nothing {entry : List Char} {e : Effect R} (h : Asks entry e) : e ≠ .nothing := by
  rintro rfl
  cases h

/-- What an entry is read as is all that it asks for. -/
theorem asks_iff {entry : List Char} (hs : HasShortColor entry) {e : Effect R}
    (h : (readEntry entry).result = .ok e) (e' : Effect R) : Asks entry e' ↔ e = e' ∧ e' ≠ .nothing := by
  constructor
  · intro hasks
    exact ⟨Except.ok.inj (h.symm.trans (readEntry_of_asks hasks hs)), hasks.ne_nothing⟩
  · rintro ⟨rfl, hne⟩
    rcases readEntry_cases (R := R) entry with ⟨e', hasks⟩ | hfaulty | hnothing
    · obtain rfl := Except.ok.inj (h.symm.trans (readEntry_of_asks hasks hs))
      exact hasks
    · obtain ⟨c, hc⟩ := readEntry_of_isFaulty hfaulty
      cases h.symm.trans hc
    · exact absurd (Except.ok.inj (h.symm.trans hnothing)) hne

/-- An entry that is not faulty is read. -/
theorem exists_readEntry {entry : List Char} (hs : HasShortColor entry) (h : ¬IsFaulty R entry) :
    ∃ e : Effect R, (readEntry entry).result = .ok e := by
  rcases readEntry_cases (R := R) entry with ⟨e, hasks⟩ | hfaulty | hnothing
  · exact ⟨e, readEntry_of_asks hasks hs⟩
  · exact absurd hfaulty h
  · exact ⟨_, hnothing⟩

end FeynmanTikz
