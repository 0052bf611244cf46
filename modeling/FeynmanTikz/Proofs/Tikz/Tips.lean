/-
Arrow tips with other names.

A tip is written in braces, and whatever stands in braces is read as a tip.  But before an entry is looked
at, the option list has been cut at its commas, and an entry with an equals sign is a setting; the name
of a tip may have both.

* `IsTipName`: names of one line without braces and backslashes,
* `tipEntries`: the entries of an arrow style, with a name for the tip,
* `tipEffects`, `readEntries_tips`: what these entries ask for,
* `passes_tips`: they can stand in an option list, as far as the lexer is concerned,
* `TipEntry.splitOptions_eq`: no comma tears them if the name closes no square bracket that it has not
  opened.
-/
import FeynmanTikz.Proofs.Tikz.Entries

namespace FeynmanTikz

/-! ### The ends of squeezed texts -/

theorem exists_words_concat {c : Char} (hc : isBlank c = false) : ∀ t : List Char,
    ∃ ws p, words (t ++ [c]) = ws ++ [p ++ [c]]
  | [] => ⟨[], [], by simp [words, hc, startsWord]⟩
  | d :: t => by
    obtain ⟨ws, p, hw⟩ := exists_words_concat hc t
    rw [List.cons_append, words]
    split
    · exact ⟨ws, p, hw⟩
    split
    · cases ws with
      | nil => exact ⟨[], d :: p, by rw [hw]; rfl⟩
      | cons w ws => exact ⟨(d :: w) :: ws, p, by rw [hw]; rfl⟩
    · exact ⟨[d] :: ws, p, by rw [hw]; rfl⟩

theorem exists_intercalate_concat (sep p : List Char) : ∀ ws : List (List Char),
    ∃ u, sep.intercalate (ws ++ [p]) = u ++ p
  | [] => ⟨[], by simp⟩
  | [w] => ⟨w ++ sep, by simp [List.intercalate]⟩
  | w :: v :: ws => by
    obtain ⟨u, hu⟩ := exists_intercalate_concat sep p (v :: ws)
    exact ⟨w ++ (sep ++ u), by
      rw [List.append_assoc, List.append_assoc, ← hu]
      rfl⟩

/-- Squeezing keeps what a text ends in, if that is not blank. -/
theorem getLast?_squeeze (t : List Char) {c : Char} (hc : isBlank c = false) :
    (squeeze (t ++ [c])).getLast? = some c := by
  obtain ⟨ws, p, hw⟩ := exists_words_concat hc t
  obtain ⟨u, hu⟩ := exists_intercalate_concat [' '] (p ++ [c]) ws
  unfold squeeze
  rw [hw, hu]
  simp

/-- Squeezing keeps what a text starts with, if that is not blank. -/
theorem head?_squeeze {c : Char} (hc : isBlank c = false) (t : List Char) :
    (squeeze (c :: t)).head? = some c := by
  have hw : ∃ p ws, words (c :: t) = (c :: p) :: ws := by
    rw [words, if_neg (by rw [hc]; decide)]
    split
    · cases words t with
      | nil => exact ⟨[], [], rfl⟩
      | cons p ws => exact ⟨p, ws, rfl⟩
    · exact ⟨[], _, rfl⟩
  obtain ⟨p, ws, hw⟩ := hw
  unfold squeeze
  rw [hw]
  cases ws <;> rfl

/-! ### Entries with other tips -/

/-- A name for the tip that can be written in braces. -/
structure IsTipName (t : List Char) : Prop where
  oneLine : OneLine t
  plain : ∀ c ∈ t, c ≠ '\\' ∧ c ≠ '\x7b' ∧ c ≠ '\x7d'

/-- A name in braces. -/
def grouped (t : List Char) : List Char := '\x7b' :: (t ++ ['\x7d'])

theorem toList_inBraces (t : String) : (inBraces t).toList = grouped t.toList := by
  simp [inBraces, grouped]

theorem getLast?_grouped (t : List Char) : (grouped t).getLast? = some '\x7d' := by
  unfold grouped
  rw [← List.cons_append, List.getLast?_concat]

theorem IsTipName.oneLine_grouped {t : List Char} (h : IsTipName t) : OneLine (grouped t) :=
  .cons rfl (h.oneLine.append (by decide))

/-- Inside braces square brackets are plain. -/
theorem IsTipName.passes_grouped {t : List Char} (h : IsTipName t) (b : Bracket) (s : List Bracket) :
    passes (b :: s) (grouped t) = some (b :: s) := by
  have hinner : passes (.brace :: b :: s) t = some (.brace :: b :: s) := by
    refine passes_inert fun c hc => ?_
    obtain ⟨hescape, hopen, hclose⟩ := h.plain c hc
    exact ⟨hescape, by simp [opens?, hopen], by simp [closes, hclose]⟩
  unfold grouped
  rw [passes_cons (by decide), show stackAfter (b :: s) '\x7b' = some (.brace :: b :: s) by cases b <;> rfl]
  show FeynmanTikz.passes (.brace :: b :: s) (t ++ ['\x7d']) = _
  rw [passes_append hinner]
  rfl

/-- A group is taken for a tip. -/
theorem spanTip_grouped {t : List Char} (h : ∀ c ∈ t, c ≠ '\x7b' ∧ c ≠ '\x7d') (rest : List Char) :
    spanTip (grouped t ++ rest) = (grouped t, rest) := by
  have hinner : (t ++ ('\x7d' :: rest)).takeWhile (fun d => decide (d ≠ '\x7b' ∧ d ≠ '\x7d')) = t := by
    rw [List.takeWhile_append_of_pos fun c hc => decide_eq_true (h c hc)]
    simp
  unfold grouped spanTip
  rw [List.cons_append, List.append_assoc, List.singleton_append]
  dsimp only
  rw [if_neg (by decide), if_pos rfl, hinner, List.drop_left]
  rfl

theorem nativeArrow?_of_spanTip (left right : List Char) {t rest final : List Char}
    (hleft : spanTip (t.filter (· != ' ')) = (left, '-' :: rest)) (hright : spanTip rest = (right, final))
    (hf : final = [] ∨ final = ['\n']) (hl : left = [] ∨ isTip left) (hr : right = [] ∨ isTip right) :
    nativeArrow? t = some (arrowOfTips left right) := by
  unfold nativeArrow?
  dsimp only
  rw [hleft]
  show (if (spanTip rest).2 = [] ∨ (spanTip rest).2 = ['\n'] then
    if (left = [] ∨ isTip left) ∧ ((spanTip rest).1 = [] ∨ isTip (spanTip rest).1) then
      some (arrowOfTips left (spanTip rest).1)
    else none
  else none) = _
  rw [hright, if_pos hf, if_pos ⟨hl, hr⟩]

/-- Tips around a dash tell an arrow style, whatever the tip is called. -/
theorem nativeArrow?_grouped {t : List Char} (h : ∀ c ∈ t, c ≠ '\x7b' ∧ c ≠ '\x7d') :
    nativeArrow? ('-' :: grouped t) = some "forward" ∧
      nativeArrow? (grouped t ++ ['-']) = some "backward" ∧
      nativeArrow? (grouped t ++ '-' :: grouped t) = some "both" := by
  -- A space in the name is dropped with all others.
  set u := t.filter (· != ' ') with hu
  have hspace : (grouped t).filter (· != ' ') = grouped u := by simp [grouped, List.filter_append, hu]
  have htip : isTip (grouped u) = true := by simp [isTip, grouped]
  have hspan := spanTip_grouped (t := u) fun c hc => h c (List.mem_of_mem_filter hc)
  have hlast := hspan []
  rw [List.append_nil] at hlast
  refine ⟨?_, ?_, ?_⟩
  · refine nativeArrow?_of_spanTip [] (grouped u) ?_ hlast (.inl rfl) (.inl rfl) (.inr htip)
    rw [List.filter_cons_of_pos (by decide), hspace]
    rfl
  · refine nativeArrow?_of_spanTip (grouped u) [] ?_ (show spanTip [] = ([], []) from rfl) (.inl rfl)
      (.inr htip) (.inl rfl)
    rw [List.filter_append, hspace]
    exact hspan ['-']
  · refine nativeArrow?_of_spanTip (grouped u) (grouped u) ?_ hlast (.inl rfl) (.inr htip) (.inr htip)
    rw [List.filter_append, hspace, List.filter_cons_of_pos (by decide), hspace]
    exact hspan _

theorem endsWith_of_getLast? {word : String} {t : List Char} {c : Char} (ht : t.getLast? = some c)
    (hw : word.toList ≠ [] ∧ word.toList.getLast? ≠ some c) : endsWith word t = false := by
  refine Bool.eq_false_iff.2 fun h => ?_
  obtain ⟨u, rfl⟩ := List.isSuffixOf_iff_suffix.1 h
  rw [List.getLast?_append_of_ne_nil _ hw.1] at ht
  exact hw.2 ht

variable {R : Type} [Arithmetic R]

omit [Arithmetic R] in
/-- Tips are no stroke kind, because of what they end in. -/
theorem readFlag_of_nativeArrow? {t : List Char} {c : Char} {style : String}
    (hn : nativeArrow? (t ++ [c]) = some style) (hc : c = '-' ∨ c = '\x7d') :
    (readFlag (t ++ [c]) : Logged R (Effect R)).result = .ok (.arrow style) := by
  have hblank : isBlank c = false := by rcases hc with rfl | rfl <;> rfl
  have hlast : (lower (squeeze (t ++ [c]))).getLast? = some (lowerChar c) := by
    rw [lower, List.getLast?_map, getLast?_squeeze t hblank]
    rfl
  have hend {word : String} (hw : word.toList.getLast?.any isLetter = true) :
      endsWith word (lower (squeeze (t ++ [c]))) = false := by
    refine endsWith_of_getLast? hlast ⟨fun h => ?_, fun h => ?_⟩
    · rw [h] at hw
      cases hw
    · rw [h] at hw
      rcases hc with rfl | rfl <;> cases hw
  unfold readFlag
  dsimp only
  rw [hend (by decide), hend (by decide), if_neg (by decide), if_neg (by decide), hn]
  rfl

/-- An entry with an equals sign is a setting, and none that is known if it starts like one with
tips. -/
theorem readEntry_of_equals {c : Char} (hc : c = '-' ∨ c = '\x7b') {t : List Char} (h : '=' ∈ t) :
    (readEntry (c :: t) : Logged R (Effect R)).result = .ok .nothing := by
  obtain ⟨key, value, rfl, hkey⟩ := List.eq_append_cons_of_mem h
  have hnot : '=' ∉ c :: key := by
    rw [List.mem_cons, not_or]
    exact ⟨by rcases hc with rfl | rfl <;> decide, hkey⟩
  have hblank : isBlank c = false := by rcases hc with rfl | rfl <;> rfl
  have hhead : (lower (squeeze (c :: key))).head? = some (lowerChar c) := by
    rw [lower, List.head?_map, head?_squeeze hblank]
    rfl
  have hne {word : String} (hw : word.toList.head?.any isLetter = true) :
      String.ofList (lower (squeeze (c :: key))) ≠ word := by
    rintro rfl
    rw [String.toList_ofList, hhead] at hw
    rcases hc with rfl | rfl <;> cases hw
  unfold readEntry
  rw [show c :: (key ++ '=' :: value) = (c :: key) ++ '=' :: value from rfl, keyValue?_append hnot]
  dsimp only
  unfold readSetting
  dsimp only
  rw [if_neg fun h => h.elim (hne (by decide)) (hne (by decide)), if_neg (hne (by decide)),
    if_neg (hne (by decide))]
  rfl

/-- The entry of an arrow style, with a name for the tip. -/
inductive TipEntry (tip : String) : String → List Char → Prop where
  | forward : TipEntry tip "forward" ('-' :: grouped tip.toList)
  | backward : TipEntry tip "backward" (grouped tip.toList ++ ['-'])
  | both : TipEntry tip "both" (grouped tip.toList ++ '-' :: grouped tip.toList)
  | midForward : TipEntry tip "mid-forward" (midMark ("\\arrow" ++ inBraces tip)).toList
  | midBackward : TipEntry tip "mid-backward" (midMark ("\\arrow" ++ inBraces tip ++ "[reversed]")).toList
  | midCross : TipEntry tip "mid-cross" (midMark crossMark).toList

/-- The standard settings with other names for the tip and for the key of an arrow comment. -/
def Codec.named (key tip : String) : Codec R :=
  { Codec.standard with arrowKey := .text key, tipName := .text tip }

variable (R) in
/-- The entries of an arrow style, of which there is at most one. -/
def tipEntries (tip arrow : String) : List (List Char) :=
  (arrowOptions (.text arrow : Value R) (.text tip)).map String.toList

theorem arrowOptions_eq (tip arrow : String) : arrowOptions (.text arrow : Value R) (.text tip) =
    (tipEntries R tip arrow).map String.ofList := by
  simp [tipEntries, Function.comp_def]

theorem tipEntries_cases (tip : String) {arrow : String} (ha : arrow ∈ arrowStyles) :
    arrow = "none" ∧ tipEntries R tip arrow = [] ∨
      ∃ w, tipEntries R tip arrow = [w] ∧ TipEntry tip arrow w := by
  simp only [arrowStyles, List.mem_cons, List.not_mem_nil, or_false] at ha
  rcases ha with rfl | rfl | rfl | rfl | rfl | rfl | rfl
  · exact .inl ⟨rfl, rfl⟩
  · refine .inr ⟨_, ?_, .forward⟩
    simp [tipEntries, arrowOptions, Value.plain, toList_inBraces]
  · refine .inr ⟨_, ?_, .backward⟩
    simp [tipEntries, arrowOptions, Value.plain, toList_inBraces]
  · refine .inr ⟨_, ?_, .both⟩
    simp [tipEntries, arrowOptions, Value.plain, toList_inBraces]
  · exact .inr ⟨_, rfl, .midForward⟩
  · exact .inr ⟨_, rfl, .midBackward⟩
  · exact .inr ⟨_, rfl, .midCross⟩

/-- What an arrow style asks for in an option list.  One in the middle of an edge is not seen, and an
equals sign in the name of the tip makes a setting of the entry. -/
def tipEffects (tip arrow : String) : List (Effect R) :=
  if arrow = "none" then []
  else if arrow ∈ commentedArrows ∨ '=' ∈ tip.toList then [.nothing]
  else [.arrow arrow]

namespace TipEntry

variable {tip arrow : String} {w : List Char}

theorem read (h : TipEntry tip arrow w) (ht : IsTipName tip.toList) :
    (readEntry w : Logged R (Effect R)).result =
      .ok (if arrow ∈ commentedArrows ∨ '=' ∈ tip.toList then .nothing else .arrow arrow) := by
  obtain ⟨hforward, hbackward, hboth⟩ := nativeArrow?_grouped fun c hc => (ht.plain c hc).2
  have hgroup : '=' ∈ grouped tip.toList ↔ '=' ∈ tip.toList := by simp [grouped]
  have hflag {t : List Char} (hequals : '=' ∉ t) : (readEntry t : Logged R (Effect R)) = readFlag t := by
    unfold readEntry keyValue?
    rw [if_neg (by simpa using hequals)]
  by_cases hequals : '=' ∈ tip.toList
  · rw [if_pos (.inr hequals)]
    cases h with
    | forward => exact readEntry_of_equals (.inl rfl) (hgroup.2 hequals)
    | backward => exact readEntry_of_equals (.inr rfl) (by simp [hequals])
    | both => exact readEntry_of_equals (.inr rfl) (by simp [hequals])
    | midForward | midBackward | midCross => exact readEntry_midMark _
  · cases h with
    | forward =>
      rw [if_neg (by simp [hequals, commentedArrows]), hflag (by simp [hgroup, hequals])]
      exact readFlag_of_nativeArrow? (t := '-' :: '\x7b' :: tip.toList) hforward (.inr rfl)
    | backward =>
      rw [if_neg (by simp [hequals, commentedArrows]), hflag (by simp [hgroup, hequals])]
      exact readFlag_of_nativeArrow? hbackward (.inl rfl)
    | both =>
      rw [if_neg (by simp [hequals, commentedArrows]), hflag (by simp [hgroup, hequals])]
      have hconcat : grouped tip.toList ++ '-' :: grouped tip.toList =
          (grouped tip.toList ++ '-' :: '\x7b' :: tip.toList) ++ ['\x7d'] := by simp [grouped]
      rw [hconcat] at hboth ⊢
      exact readFlag_of_nativeArrow? hboth (.inr rfl)
    | midForward | midBackward | midCross =>
      rw [if_pos (.inl (by decide))]
      exact readEntry_midMark _

theorem oneLine (h : TipEntry tip arrow w) (ht : IsTipName tip.toList) : OneLine w := by
  have hg := ht.oneLine_grouped
  cases h with
  | forward => exact .cons rfl hg
  | backward => exact hg.append (by decide)
  | both => exact hg.append (.cons rfl hg)
  | midForward =>
    refine oneLine_midMark ?_
    rw [String.toList_append, toList_inBraces]
    exact OneLine.append (by decide) hg
  | midBackward =>
    refine oneLine_midMark ?_
    rw [String.toList_append, String.toList_append, toList_inBraces]
    exact (OneLine.append (by decide) hg).append (by decide)
  | midCross => exact oneLine_midMark nests_crossMark.oneLine

theorem passes (h : TipEntry tip arrow w) (ht : IsTipName tip.toList) :
    FeynmanTikz.passes [.square] w = some [.square] := by
  have hg := ht.passes_grouped
  cases h with
  | forward =>
    rw [passes_cons (by decide)]
    exact hg _ _
  | backward =>
    rw [passes_append (hg _ _)]
    rfl
  | both =>
    rw [passes_append (hg _ _), passes_cons (by decide)]
    exact hg _ _
  | midForward =>
    refine passes_midMark ?_
    rw [String.toList_append, toList_inBraces,
      passes_append (r := [.brace, .brace, .brace, .square]) rfl]
    exact hg _ _
  | midBackward =>
    refine passes_midMark ?_
    rw [String.toList_append, String.toList_append, toList_inBraces,
      passes_append (r := [.brace, .brace, .brace, .square]) ?_]
    · rfl
    · rw [passes_append (r := [.brace, .brace, .brace, .square]) rfl]
      exact hg _ _
  | midCross => exact passes_midMark nests_crossMark.passed

end TipEntry

/-- The arrow style that tips alone tell. -/
def tipArrow (tip arrow : String) : String :=
  if arrow ∈ commentedArrows ∨ '=' ∈ tip.toList then "none" else arrow

theorem readEntries_tips {tip arrow : String} (ht : IsTipName tip.toList) (ha : arrow ∈ arrowStyles)
    (hw : ∀ w ∈ tipEntries R tip arrow, splitOptions w = [w]) :
    (readEntries (splitOptions (joined (tipEntries R tip arrow))) : Logged R _).result =
      .ok (tipEffects tip arrow) := by
  rcases tipEntries_cases (R := R) tip ha with ⟨rfl, hnone⟩ | ⟨w, hsome, hentry⟩
  · rw [hnone]
    rfl
  · have hstyle : arrow ≠ "none" := by cases hentry <;> decide
    rw [hsome] at hw ⊢
    show (readEntries (splitOptions w)).result = _
    rw [hw w List.mem_cons_self, readEntries, Logged.result_bind, hentry.read ht, ok_bind, tipEffects,
      if_neg hstyle]
    split <;> rfl

omit [Arithmetic R] in
theorem ofEffects_tips {kind arrow : String} (hk : kind ∈ strokeKinds) (ha : arrow ∈ arrowStyles)
    (tip : String) (default color width : Value R) :
    DrawOptions.ofEffects default
        ([.color color, .width width] ++ (strokeEffects kind ++ tipEffects tip arrow)) =
      ⟨kind, tipArrow tip arrow, color, width⟩ := by
  -- A setting is as little seen as a style in the middle of an edge.
  have hunseen := ofEffects_edge hk (show "mid-forward" ∈ arrowStyles by decide) default color width
  unfold tipEffects tipArrow
  by_cases hnone : arrow = "none"
  · subst hnone
    rw [if_pos rfl, ite_self]
    exact ofEffects_edge hk ha default color width
  rw [if_neg hnone]
  by_cases hseen : arrow ∈ commentedArrows ∨ '=' ∈ tip.toList
  · rw [if_pos hseen, if_pos hseen]
    exact hunseen
  · rw [if_neg hseen, if_neg hseen]
    have hedge := ofEffects_edge hk ha default color width
    rw [tipsOf, if_neg fun h => hseen (.inl (List.contains_iff_mem.1 h))] at hedge
    simp only [arrowStyles, List.mem_cons, List.not_mem_nil, or_false] at ha
    rcases ha with rfl | rfl | rfl | rfl | rfl | rfl | rfl
    · exact absurd rfl hnone
    · exact hedge
    · exact hedge
    · exact hedge
    all_goals exact absurd (.inl (by decide)) hseen

/-- The entry can stand in an option list on a line. -/
theorem passes_tips {tip arrow : String} (ht : IsTipName tip.toList) (ha : arrow ∈ arrowStyles) :
    ∀ w ∈ tipEntries R tip arrow, passes [.square] w = some [.square] ∧ OneLine w := by
  intro w hw
  rcases tipEntries_cases (R := R) tip ha with ⟨-, hnone⟩ | ⟨v, hsome, hentry⟩
  · rw [hnone] at hw
    cases hw
  · rw [hsome] at hw
    obtain rfl := List.mem_singleton.1 hw
    exact ⟨hentry.passes ht, hentry.oneLine ht⟩

/-! ### Commas in the name -/

/-- A name that has a comma closes no square bracket that it has not opened. -/
def IsMatched (t : List Char) : Prop := ',' ∈ t → ∀ p, p <+: t → p.count ']' ≤ p.count '['

/-- Without braces only square brackets change the depth. -/
theorem settles_of_counts : ∀ {t : List Char} {d : Int},
    (∀ c ∈ t, c ≠ '\\' ∧ c ≠ '\x7b' ∧ c ≠ '\x7d') →
    (∀ p q, t = p ++ ',' :: q → d + p.count '[' - p.count ']' ≠ 0) →
    settles d t = some (d + t.count '[' - t.count ']')
  | [], d, _, _ => by simp [settles]
  | c :: t, d, hplain, hcomma => by
    obtain ⟨⟨hescape, hopen, hclose⟩, hrest⟩ := List.forall_mem_cons.1 hplain
    have hnext {e : Int} (he : ∀ p : List Char, d + (c :: p).count '[' - (c :: p).count ']' =
        e + p.count '[' - p.count ']') : settles e t = some (d + (c :: t).count '[' - (c :: t).count ']') := by
      rw [he t]
      refine settles_of_counts hrest fun p q ht => ?_
      rw [← he p]
      exact hcomma (c :: p) q (by rw [ht]; rfl)
    rw [settles_cons hescape]
    by_cases hleft : c = '['
    · rw [if_pos (.inr hleft)]
      exact hnext fun p => by subst hleft; simp; omega
    by_cases hright : c = ']'
    · rw [if_neg (by simp [hopen, hleft]), if_pos (.inr hright)]
      exact hnext fun p => by subst hright; simp; omega
    · rw [if_neg (by simp [hopen, hleft]), if_neg (by simp [hclose, hright]), if_neg]
      · exact hnext fun p => by simp [hleft, hright]
      · rintro ⟨rfl, rfl⟩
        exact hcomma [] t rfl (by simp)

theorem IsMatched.settles_grouped {t : List Char} (h : IsMatched t) (ht : IsTipName t) {d : Int}
    (hd : ',' ∈ t → 0 ≤ d) : settles d (grouped t) = some (d + t.count '[' - t.count ']') := by
  have hinner : settles (d + 1) t = some (d + 1 + t.count '[' - t.count ']') := by
    refine settles_of_counts ht.plain fun p q hp => ?_
    have hm : ',' ∈ t := by simp [hp]
    have hle := h hm p ⟨_, hp.symm⟩
    have := hd hm
    omega
  unfold grouped
  rw [settles_cons (by decide), if_pos (.inl rfl), settles_append hinner]
  show some (d + 1 + (t.count '[' : Int) - t.count ']' - 1) = _
  exact congrArg some (by omega)

/-- No comma of the name tears the entry. -/
theorem TipEntry.splitOptions_eq {tip arrow : String} {w : List Char} (h : TipEntry tip arrow w)
    (ht : IsTipName tip.toList) (hm : IsMatched tip.toList) : splitOptions w = [w] := by
  have hgroup := hm.settles_grouped ht (d := 0) fun _ => Int.le_refl 0
  have hnested := hm.settles_grouped ht (d := 3) fun _ => by decide
  have hdash (d : Int) (t : List Char) : settles d ('-' :: t) = settles d t := by
    rw [settles_cons (by decide), if_neg (by decide), if_neg (by decide),
      if_neg fun h => absurd h.1 (by decide)]
  have hmark {body : String} {d : Int} (hb : settles 3 body.toList = some (d + 3)) :
      splitOptions (midMark body).toList = [(midMark body).toList] := by
    refine splitOptions_of_settles (settles_midMark hb) (trim_midMark body) fun hnil => ?_
    rw [toList_midMark] at hnil
    exact absurd (List.append_eq_nil_iff.1 hnil).1 (by decide)
  cases h with
  | forward =>
    refine splitOptions_of_settles ((hdash _ _).trans hgroup)
      (trim_of_ends (c := '-') (e := '\x7d') rfl rfl ?_ rfl) (by simp)
    simp [List.getLast?_cons, getLast?_grouped]
  | backward =>
    refine splitOptions_of_settles ((settles_append hgroup _).trans rfl)
      (trim_of_ends (c := '\x7b') (e := '-') rfl rfl ?_ rfl) (by simp)
    simp
  | both =>
    -- The second tip begins at the depth that the first one leaves.
    have hsecond := hm.settles_grouped ht (d := 0 + tip.toList.count '[' - tip.toList.count ']')
      fun hc => by
        have hle := hm hc _ (List.prefix_refl _)
        omega
    refine splitOptions_of_settles ((settles_append hgroup _).trans ((hdash _ _).trans hsecond))
      (trim_of_ends (c := '\x7b') (e := '\x7d') rfl rfl ?_ rfl) (by simp)
    simp [List.getLast?_append, List.getLast?_cons, getLast?_grouped]
  | midForward =>
    refine hmark (d := tip.toList.count '[' - tip.toList.count ']') ?_
    rw [String.toList_append, toList_inBraces, settles_append (e := 3) rfl, hnested]
    exact congrArg some (by omega)
  | midBackward =>
    refine hmark (d := tip.toList.count '[' - tip.toList.count ']') ?_
    rw [String.toList_append, String.toList_append, toList_inBraces,
      settles_append (e := 3 + tip.toList.count '[' - tip.toList.count ']')]
    · show some (3 + (tip.toList.count '[' : Int) - tip.toList.count ']' + 1 - 1) = _
      exact congrArg some (by omega)
    · rw [settles_append (e := 3) rfl, hnested]
  | midCross => exact hmark (d := 0) nests_crossMark.settled

end FeynmanTikz
