/-
Two ways to tell which commas separate options.

The lexer finds the end of an option list with a stack of open brackets, in which square brackets
inside braces are plain.  The list is then cut by a counter, which counts these too.

* `nestedPieces`: an option list cut at the commas that are outside all brackets for the lexer,
* `surplus`: square brackets opened inside braces, less those closed there,
* `depthAfter_eq`: the counter is ahead of the stack by the surplus,
* `CountsAlike`: the surplus conceals no comma between options and reveals none inside one,
* `trimmedPieces_comma`: what becomes of the options at one comma,
* `trimmedPieces_eq_iff`: both ways lead to the same options just if they take all commas alike, which
  is what `CountsAlike` says (`countsAlike_iff`),
* `CountsAlike.of_bracketFree`: so it is if there are no square brackets inside braces,
* `splitOptions_eq_iff`: the options of any line that is cut into tokens,
* `option_swallowed`: a line of which an option is lost.

Design notes.
* Different pieces could still be the same options, because options are trimmed and empty ones are left
  out.  They are not: wherever only one way cuts, the piece before the comma is not blank
  (`trimmedPieces_ne`), for as long as it is, no bracket has been met.
-/
import FeynmanTikz.Proofs.Number.Exact
import FeynmanTikz.Proofs.Tikz.Options
import Mathlib.Data.List.DropRight

namespace FeynmanTikz

/-! ### The two ways -/

/-- The pieces of an option list between the commas outside all inner brackets, if the brackets `s` are
open before it.  Such a comma stands where the list could end (`scanClosing_closed`). -/
def nestedPieces (s : List Bracket) : List Char → List (List Char)
  | [] => [[]]
  | c :: rest =>
    if c = '\\' then
      match rest with
      | [] => [['\\']]
      | d :: rest => consFirst '\\' (consFirst d (nestedPieces s rest))
    else if c = ',' ∧ s = [.square] then [] :: nestedPieces s rest
    else consFirst c (nestedPieces ((stackAfter s c).getD s) rest)

/-- What a character adds to the counter. -/
def turn (c : Char) : Int :=
  if c = '\x7b' ∨ c = '[' then 1 else if c = '\x7d' ∨ c = ']' then -1 else 0

/-- The counter after a text. -/
def depthAfter (d : Int) : List Char → Int
  | [] => d
  | c :: rest =>
    if c = '\\' then
      match rest with
      | [] => d
      | _ :: rest => depthAfter d rest
    else depthAfter (d + turn c) rest

/-- Square brackets that a text opens inside braces, less those it closes there. -/
def surplus (s : List Bracket) : List Char → Int
  | [] => 0
  | c :: rest =>
    if c = '\\' then
      match rest with
      | [] => 0
      | _ :: rest => surplus s rest
    else
      (if s.head? = some .brace ∧ (c = '[' ∨ c = ']') then turn c else 0) +
        surplus ((stackAfter s c).getD s) rest

/-- The counter is where it should be at every comma.  A comma after an escape is none: no stack is left
by the text before it. -/
structure CountsAlike (v : List Char) : Prop where
  /-- Otherwise an option is joined to the next one. -/
  outside : ∀ p q, v = p ++ ',' :: q → passes [.square] p = some [.square] → surplus [.square] p = 0
  /-- Otherwise an option is torn. -/
  inside : ∀ p q s, v = p ++ ',' :: q → passes [.square] p = some s → s ≠ [.square] →
    (s.length : Int) + surplus [.square] p ≠ 1

/-- No square bracket stands inside braces, unless it is escaped. -/
def BracketFree (s : List Bracket) (v : List Char) : Prop :=
  ∀ p c q outer, v = p ++ c :: q → passes s p = some (.brace :: outer) → c ≠ '[' ∧ c ≠ ']'

section

variable {c : Char} (hc : c ≠ '\\')

include hc

theorem nestedPieces_cons (s : List Bracket) (rest : List Char) :
    nestedPieces s (c :: rest) =
      if c = ',' ∧ s = [.square] then [] :: nestedPieces s rest
      else consFirst c (nestedPieces ((stackAfter s c).getD s) rest) := by
  rw [nestedPieces.eq_def]
  exact if_neg hc

theorem depthAfter_cons (d : Int) (rest : List Char) :
    depthAfter d (c :: rest) = depthAfter (d + turn c) rest := by
  rw [depthAfter.eq_def]
  exact if_neg hc

theorem surplus_cons (s : List Bracket) (rest : List Char) :
    surplus s (c :: rest) = (if s.head? = some .brace ∧ (c = '[' ∨ c = ']') then turn c else 0) +
      surplus ((stackAfter s c).getD s) rest := by
  rw [surplus.eq_def]
  exact if_neg hc

theorem optionPieces_turn (hcomma : c ≠ ',') (d : Int) (rest : List Char) :
    optionPieces d (c :: rest) = consFirst c (optionPieces (d + turn c) rest) := by
  rw [optionPieces_cons hc]
  unfold turn
  split
  · rfl
  split
  · rfl
  rw [if_neg fun h => hcomma h.1, Int.add_zero]

end

/-! ### The counter and the stack -/

theorem length_stackAfter {s s' : List Bracket} {c : Char} (h : stackAfter s c = some s') :
    (s'.length : Int) + (if s.head? = some .brace ∧ (c = '[' ∨ c = ']') then turn c else 0) =
      s.length + turn c := by
  cases s with
  | nil => cases h
  | cons inner outer =>
    unfold stackAfter opens? closes at h
    unfold turn
    cases inner with
    | square => grind [Bracket.closing]
    | brace => grind [Bracket.closing]

/-- The counter is ahead of the stack by the square brackets inside braces. -/
theorem depthAfter_eq {s r : List Bracket} {t : List Char} (h : passes s t = some r) (d : Int) :
    depthAfter d t + s.length = d + r.length + surplus s t := by
  induction s, t using passes.induct generalizing d with
  | case1 s =>
    cases h
    simp [depthAfter, surplus]
  | case2 s => cases h
  | case3 s c t ih => exact ih h d
  | case4 s c t h₁ h₂ ih =>
    have hc := ne_escape_of_other h₁ h₂
    rw [passes_cons hc] at h
    obtain ⟨s', hs, h⟩ := Option.bind_eq_some_iff.1 h
    have hturn := length_stackAfter hs
    have hrest := ih _ h (d + turn c)
    rw [depthAfter_cons hc, surplus_cons hc, hs, Option.getD_some]
    omega

/-- Both ways take the commas of a text alike. -/
def AlikeFrom (s : List Bracket) (d : Int) (v : List Char) : Prop :=
  ∀ p q r, v = p ++ ',' :: q → passes s p = some r → (r = [.square] ↔ depthAfter d p = 0)

theorem countsAlike_iff {v : List Char} : CountsAlike v ↔ AlikeFrom [.square] 0 v := by
  -- The depth is the number of inner brackets that are open, and the surplus.
  constructor
  · intro h p q r hv hp
    have hdepth := depthAfter_eq hp 0
    rw [List.length_singleton] at hdepth
    constructor
    · rintro rfl
      have hzero := h.outside p q hv hp
      simp only [List.length_singleton] at hdepth
      omega
    · intro hd
      by_contra hr
      have hne := h.inside p q r hv hp hr
      omega
  · intro h
    refine ⟨fun p q hv hp => ?_, fun p q r hv hp hr hsum => hr ?_⟩
    · have hdepth := depthAfter_eq hp 0
      have hzero := (h p q _ hv hp).1 rfl
      simp only [List.length_singleton] at hdepth
      omega
    · have hdepth := depthAfter_eq hp 0
      simp only [List.length_singleton] at hdepth
      exact (h p q r hv hp).2 (by omega)

theorem alikeFrom_escape {s : List Bracket} {d : Int} {c : Char} {t : List Char} :
    AlikeFrom s d ('\\' :: c :: t) ↔ AlikeFrom s d t := by
  constructor
  · intro h p q r ht hp
    exact h ('\\' :: c :: p) q r (by rw [ht]; rfl) hp
  · intro h p q r ht hp
    match p, ht, hp with
    | [x], ht, hp =>
      obtain ⟨rfl, -⟩ := List.cons.inj ht
      cases hp
    | x :: y :: p, ht, hp =>
      obtain ⟨rfl, hmore⟩ := List.cons.inj ht
      obtain ⟨rfl, htail⟩ := List.cons.inj hmore
      exact h p q r htail hp

theorem alikeFrom_cons {s s' : List Bracket} {d : Int} {c : Char} {t : List Char} (hc : c ≠ '\\')
    (hs : stackAfter s c = some s') : AlikeFrom s d (c :: t) ↔
      (c = ',' → (s = [.square] ↔ d = 0)) ∧ AlikeFrom s' (d + turn c) t := by
  have hpasses (p : List Char) : passes s (c :: p) = passes s' p := by
    rw [passes_cons hc, hs]
    rfl
  constructor
  · intro h
    refine ⟨?_, fun p q r ht hp => ?_⟩
    · rintro rfl
      exact h [] t s rfl rfl
    · rw [← depthAfter_cons hc]
      exact h (c :: p) q r (by rw [ht]; rfl) ((hpasses p).trans hp)
  · rintro ⟨hcomma, h⟩ p q r ht hp
    cases p with
    | nil =>
      cases hp
      exact hcomma (List.cons.inj ht).1
    | cons x p =>
      obtain ⟨rfl, htail⟩ := List.cons.inj ht
      rw [depthAfter_cons hc]
      exact h p q r htail ((hpasses p).symm.trans hp)

/-! ### Options and the pieces they come from -/

theorem not_blank_of_mem {t : List Char} {c : Char} (h : c ∈ t) (hc : isBlank c = false) :
    ¬∀ x ∈ t, isBlank x = true := by
  intro hall
  rw [hall c h] at hc
  cases hc

/-- A character that is not blank is not dropped from the end, nor is anything before it. -/
theorem length_lt_trimRight (t u : List Char) {c : Char} (hc : isBlank c = false) :
    t.length < (trimRight (t ++ c :: u)).length := by
  unfold trimRight dropEndWhile
  rw [List.reverse_append, List.reverse_cons, List.append_assoc, List.dropWhile_append,
    List.length_reverse]
  split
  · simp [List.dropWhile_cons_of_neg, hc]
  · simp
    omega

theorem length_trimRight_le (t : List Char) : (trimRight t).length ≤ t.length :=
  (List.rdropWhile_prefix isBlank t).length_le

/-- What is dropped from the front does not depend on what follows the first character that stays. -/
theorem exists_trimLeft {t : List Char} (h : ¬∀ c ∈ t, isBlank c = true) :
    ∃ b rest, isBlank b = false ∧ ∀ u, trimLeft (t ++ u) = b :: rest ++ u := by
  obtain ⟨b, rest, hrest⟩ := List.exists_cons_of_ne_nil (mt List.dropWhile_eq_nil_iff.1 h)
  refine ⟨b, rest, ?_, fun u => ?_⟩
  · have hhead := List.head?_dropWhile_not isBlank t
    rw [hrest] at hhead
    simpa using hhead
  · unfold trimLeft
    rw [List.dropWhile_append, hrest]
    rfl

theorem trim_ne_nil {t : List Char} (h : ¬∀ c ∈ t, isBlank c = true) : trim t ≠ [] := by
  obtain ⟨b, rest, hb, hleft⟩ := exists_trimLeft h
  have hlt := length_lt_trimRight [] rest hb
  have hself := hleft []
  rw [List.append_nil, List.append_nil] at hself
  unfold trim
  rw [hself]
  exact List.ne_nil_of_length_pos hlt

/-- A text that goes on with a character that is not blank is another option. -/
theorem trim_ne_trim_append {t : List Char} (h : ¬∀ c ∈ t, isBlank c = true) (u : List Char) {c : Char}
    (hc : isBlank c = false) : trim t ≠ trim (t ++ c :: u) := by
  obtain ⟨b, rest, -, hleft⟩ := exists_trimLeft h
  have hself := hleft []
  rw [List.append_nil, List.append_nil] at hself
  unfold trim
  rw [hself, hleft]
  intro heq
  have hlt := length_lt_trimRight (b :: rest) u hc
  have hle := length_trimRight_le (b :: rest)
  rw [heq] at hle
  omega

theorem trimmedPieces_cons (p : List Char) (ps : List (List Char)) :
    trimmedPieces (p :: ps) = if trim p = [] then trimmedPieces ps else trim p :: trimmedPieces ps := by
  unfold trimmedPieces
  rw [List.map_cons, List.filter_cons]
  by_cases hp : trim p = []
  · simp [hp]
  · simp [hp]

theorem trimmedPieces_cons_inj {p : List Char} {ps qs : List (List Char)} :
    trimmedPieces (p :: ps) = trimmedPieces (p :: qs) ↔ trimmedPieces ps = trimmedPieces qs := by
  rw [trimmedPieces_cons, trimmedPieces_cons]
  split
  · rfl
  · exact ⟨fun h => (List.cons.inj h).2, fun h => congrArg _ h⟩

theorem prepend_concat (t : List Char) (c : Char) (ps : List (List Char)) :
    prepend (t ++ [c]) ps = prepend t (consFirst c ps) := List.foldr_append

/-- The first piece goes on after a text that has been put in front of it. -/
theorem exists_prepend_concat (t : List Char) (c : Char) (ps : List (List Char)) :
    ∃ u us, prepend (t ++ [c]) ps = (t ++ c :: u) :: us := by
  cases ps with
  | nil =>
    refine ⟨[], [], ?_⟩
    rw [prepend_concat]
    exact prepend_cons [c] [] t
  | cons p ps => exact ⟨p, ps, by rw [prepend_cons, List.append_assoc, List.singleton_append]⟩

/-- An option that ends at a comma is not the one that goes on after it. -/
theorem trimmedPieces_ne {t : List Char} (h : ¬∀ c ∈ t, isBlank c = true) (ps qs : List (List Char)) :
    trimmedPieces (prepend t ([] :: ps)) ≠ trimmedPieces (prepend (t ++ [',']) qs) := by
  obtain ⟨u, us, hqs⟩ := exists_prepend_concat t ',' qs
  have hlonger : trim (t ++ ',' :: u) ≠ [] :=
    trim_ne_nil (not_blank_of_mem (c := ',') (by simp) (by decide))
  rw [prepend_cons, List.append_nil, hqs, trimmedPieces_cons, if_neg (trim_ne_nil h),
    trimmedPieces_cons, if_neg hlonger]
  exact fun heq => trim_ne_trim_append h u (by decide) (List.cons.inj heq).1

/-- At a comma both ways must cut, or neither, and lead to the same options after it.  Two of the four
lists of pieces begin after a cut, the others go on with the option. -/
theorem trimmedPieces_comma {a b : Prop} [Decidable a] [Decidable b] {t : List Char}
    (ht : (∀ c ∈ t, isBlank c = true) → a ∧ b) (ps qs ps' qs' : List (List Char)) :
    trimmedPieces (prepend t (if a then [] :: ps else consFirst ',' qs)) =
        trimmedPieces (prepend t (if b then [] :: ps' else consFirst ',' qs')) ↔
      (b ↔ a) ∧ (a → trimmedPieces ps = trimmedPieces ps') ∧
        (¬a → trimmedPieces (prepend (t ++ [',']) qs) = trimmedPieces (prepend (t ++ [',']) qs')) := by
  rw [prepend_concat, prepend_concat]
  by_cases ha : a
  · rw [if_pos ha]
    by_cases hb : b
    · rw [if_pos hb, prepend_cons, prepend_cons, trimmedPieces_cons_inj]
      simp [ha, hb]
    · have hne := trimmedPieces_ne (fun hall => hb (ht hall).2) ps qs'
      rw [prepend_concat] at hne
      rw [if_neg hb]
      simp [hne, ha, hb]
  · rw [if_neg ha]
    by_cases hb : b
    · have hne := trimmedPieces_ne (fun hall => ha (ht hall).1) ps' qs
      rw [prepend_concat] at hne
      rw [if_pos hb]
      simp [hne.symm, ha, hb]
    · rw [if_neg hb]
      simp [ha, hb]

/-- A blank is no bracket. -/
theorem inert_of_isBlank {c : Char} (h : isBlank c = true) :
    turn c = 0 ∧ ∀ s, s ≠ [] → stackAfter s c = some s := by
  have hne (d : Char) (hd : isBlank d = false) : c ≠ d := by
    rintro rfl
    rw [h] at hd
    cases hd
  have h₁ := hne '\x7b' (by decide)
  have h₂ := hne '[' (by decide)
  have h₃ := hne '\x7d' (by decide)
  have h₄ := hne ']' (by decide)
  constructor
  · simp [turn, h₁, h₂, h₃, h₄]
  · intro s hs
    obtain ⟨b, bs, rfl⟩ := List.exists_cons_of_ne_nil hs
    simp [stackAfter, opens?, closes, h₁, h₂, h₃, h₄]

theorem stackAfter_comma {s s' : List Bracket} (h : stackAfter s ',' = some s') : s' = s := by
  cases s with
  | nil => cases h
  | cons b bs => simpa [stackAfter, opens?, closes] using h.symm

/-- Both ways lead to the same options just if they take all commas alike.  The text `t` is the beginning
of the first piece: as long as it is blank, both are outside all brackets. -/
theorem trimmedPieces_eq_iff {s r : List Bracket} {v : List Char} (h : passes s v = some r) {d : Int}
    {t : List Char} (ht : (∀ c ∈ t, isBlank c = true) → s = [.square] ∧ d = 0) :
    trimmedPieces (prepend t (optionPieces d v)) = trimmedPieces (prepend t (nestedPieces s v)) ↔
      AlikeFrom s d v := by
  -- Along the text; `t` takes up what has been read since the last comma that both have cut at.
  induction s, v using passes.induct generalizing d t with
  | case1 s =>
    refine ⟨fun _ p q r hv => ?_, fun _ => rfl⟩
    exact absurd hv (by simp)
  | case2 s => cases h
  | case3 s c v ih =>
    -- A backslash is not blank, so nothing has to be known of the brackets any more.
    have hblank := not_blank_of_mem (t := t ++ ['\\'] ++ [c]) (c := '\\') (by simp) (by decide)
    rw [alikeFrom_escape, ← ih h fun hall => absurd hall hblank, prepend_concat, prepend_concat,
      prepend_concat, prepend_concat]
    rfl
  | case4 s c v h₁ h₂ ih =>
    have hc := ne_escape_of_other h₁ h₂
    rw [passes_cons hc] at h
    obtain ⟨s', hs, hrest⟩ := Option.bind_eq_some_iff.1 h
    rw [alikeFrom_cons hc hs]
    by_cases hcomma : c = ','
    · subst hcomma
      obtain rfl := stackAfter_comma hs
      rw [optionPieces_cons hc, if_neg (by decide), if_neg (by decide), nestedPieces_cons hc, hs,
        Option.getD_some, show turn ',' = 0 from rfl, Int.add_zero]
      rw [trimmedPieces_comma fun hall => ⟨⟨rfl, (ht hall).2⟩, rfl, (ht hall).1⟩]
      simp only [true_and, forall_const]
      refine and_congr_right fun halike => ?_
      by_cases hd : d = 0
      · -- Both end the option here.
        have hnext := ih _ hrest (d := d) (t := []) fun _ => ⟨halike.2 hd, hd⟩
        simpa [prepend, hd] using hnext
      · -- Both go on with the option.
        have hjoined := ih _ hrest (d := d) (t := t ++ [',']) fun hall =>
          absurd hall (not_blank_of_mem (c := ',') (by simp) (by decide))
        simpa [hd] using hjoined
    · -- A blank changes neither the stack nor the counter.
      have hnext : (∀ x ∈ t ++ [c], isBlank x = true) → s' = [.square] ∧ d + turn c = 0 := by
        intro hall
        obtain ⟨rfl, rfl⟩ := ht fun x hx => hall x (List.mem_append_left _ hx)
        obtain ⟨hturn, hstack⟩ := inert_of_isBlank (hall c (by simp))
        rw [hstack _ (by simp)] at hs
        exact ⟨(Option.some.inj hs).symm, by rw [hturn]; rfl⟩
      have hjoined := ih _ hrest hnext
      rw [prepend_concat, prepend_concat] at hjoined
      rw [optionPieces_turn hc hcomma, nestedPieces_cons hc, if_neg fun hcut => hcomma hcut.1, hs,
        Option.getD_some, hjoined]
      simp [hcomma]

/-! ### Square brackets inside braces -/

theorem bracketFree_escape {s : List Bracket} {c : Char} {t : List Char}
    (h : BracketFree s ('\\' :: c :: t)) : BracketFree s t := by
  intro p x q outer ht hp
  exact h ('\\' :: c :: p) x q outer (by rw [ht]; rfl) hp

theorem bracketFree_cons {s s' : List Bracket} {c : Char} {t : List Char} (hc : c ≠ '\\')
    (hs : stackAfter s c = some s') (h : BracketFree s (c :: t)) : BracketFree s' t := by
  intro p x q outer ht hp
  refine h (c :: p) x q outer (by rw [ht]; rfl) ?_
  rw [passes_cons hc, hs]
  exact hp

theorem bracketFree_left {s : List Bracket} {t u : List Char} (h : BracketFree s (t ++ u)) :
    BracketFree s t := by
  intro p c q outer ht hp
  exact h p c (q ++ u) outer (by rw [ht, List.append_assoc, List.cons_append]) hp

theorem surplus_eq_zero {s r : List Bracket} {t : List Char} (h : passes s t = some r)
    (hfree : BracketFree s t) : surplus s t = 0 := by
  induction s, t using passes.induct with
  | case1 s => rfl
  | case2 s => cases h
  | case3 s c t ih => exact ih h (bracketFree_escape hfree)
  | case4 s c t h₁ h₂ ih =>
    have hc := ne_escape_of_other h₁ h₂
    rw [passes_cons hc] at h
    obtain ⟨s', hs, hrest⟩ := Option.bind_eq_some_iff.1 h
    have hplain : ¬(s.head? = some .brace ∧ (c = '[' ∨ c = ']')) := by
      rintro ⟨hhead, hsquare⟩
      obtain ⟨outer, rfl⟩ := List.head?_eq_some_iff.1 hhead
      obtain ⟨hopening, hclosing⟩ := hfree [] c t outer rfl rfl
      exact hsquare.elim hopening hclosing
    rw [surplus_cons hc, if_neg hplain, hs, Option.getD_some, ih _ hrest (bracketFree_cons hc hs hfree)]
    rfl

/-- Only square brackets inside braces can mislead the counter. -/
theorem CountsAlike.of_bracketFree {v : List Char} (h : BracketFree [.square] v) : CountsAlike v := by
  have hzero {p q : List Char} {s : List Bracket} (hv : v = p ++ ',' :: q)
      (hp : passes [.square] p = some s) : surplus [.square] p = 0 := by
    rw [hv] at h
    exact surplus_eq_zero hp (bracketFree_left h)
  refine ⟨fun p q hv hp => hzero hv hp, fun p q s hv hp hs hone => hs ?_⟩
  rw [hzero hv hp] at hone
  -- A single open bracket is the one of the option list.
  obtain ⟨b, rfl⟩ := List.length_eq_one_iff.1 (show s.length = 1 by omega)
  obtain rfl : b = .square := by simpa using getLast?_passes hp
  rfl

/-! ### Lines -/

/-- An option list that is looked for among the tokens of a line. -/
theorem exists_attributes (line content : String)
    (h : (tokenize (.int 1) line.toList : Except (Fault Exact) _).toOption.any (·.any fun k =>
      k.kind = .attributes && match k.text with | .text t => t = content | _ => false) = true) :
    ∃ (ts : List (Token Exact)) (k : Token Exact), tokenize (.int 1) line.toList = .ok ts ∧ k ∈ ts ∧
      k.kind = .attributes ∧ k.text = .text content := by
  rcases hts : (tokenize (.int 1) line.toList : Except (Fault Exact) _) with e | ts
  · rw [hts] at h
    cases h
  · rw [hts] at h
    obtain ⟨k, hk, hseen⟩ := List.any_eq_true.1 h
    obtain ⟨hkind, htext⟩ := Bool.and_eq_true_iff.1 hseen
    obtain ⟨v, hv, -⟩ := passes_of_attributes hts hk (of_decide_eq_true hkind)
    rw [hv] at htext
    refine ⟨ts, k, rfl, hk, of_decide_eq_true hkind, ?_⟩
    rw [hv, show String.ofList v = content from of_decide_eq_true htext]

/-- The options of a line that is cut into tokens are the trimmed pieces between the commas that are
outside all inner brackets for the lexer, just if the surplus of square brackets inside braces is harmless
at every comma.  It is if there are none. -/
theorem splitOptions_eq_iff {R : Type} {line : Value R} {text : List Char} {ts : List (Token R)}
    (h : tokenize line text = .ok ts) {k : Token R} (hk : k ∈ ts) (ha : k.kind = .attributes) :
    ∃ v, k.text = .text (String.ofList v) ∧ passes [.square] v = some [.square] ∧
      (splitOptions v = trimmedPieces (nestedPieces [.square] v) ↔ CountsAlike v) ∧
      (BracketFree [.square] v → CountsAlike v) := by
  obtain ⟨v, hv, hpasses⟩ := passes_of_attributes h hk ha
  refine ⟨v, hv, hpasses, ?_, .of_bracketFree⟩
  rw [countsAlike_iff]
  exact trimmedPieces_eq_iff hpasses (t := []) fun _ => ⟨rfl, rfl⟩

/-- Square brackets inside braces, where no comma is, mislead nothing. -/
theorem splitOptions_eq_iff_mixed : ∃ (ts : List (Token Exact)) (k : Token Exact),
    tokenize (.int 1) "\\draw[a=\x7bb[c]\x7d, d[e]] (0, 0) -- (1, 0);".toList = .ok ts ∧ k ∈ ts ∧
      k.kind = .attributes ∧ k.text = .text "a=\x7bb[c]\x7d, d[e]" ∧
      CountsAlike "a=\x7bb[c]\x7d, d[e]".toList := by
  obtain ⟨ts, k, hts, hk, ha, htext⟩ := exists_attributes
    "\\draw[a=\x7bb[c]\x7d, d[e]] (0, 0) -- (1, 0);" "a=\x7bb[c]\x7d, d[e]" (by decide +kernel)
  obtain ⟨v, hv, -, hiff, -⟩ := splitOptions_eq_iff hts hk ha
  have hlist : String.ofList v = "a=\x7bb[c]\x7d, d[e]" := by simpa [htext] using hv.symm
  obtain rfl : v = "a=\x7bb[c]\x7d, d[e]".toList := by rw [← hlist, String.toList_ofList]
  exact ⟨ts, k, hts, hk, ha, htext, hiff.1 (by decide +kernel)⟩

/-- A bracket inside braces hides the comma after them, and the option `color=red` is lost in the one
before it. -/
theorem option_swallowed : ∃ (ts : List (Token Exact)) (k : Token Exact),
    tokenize (.int 1) "\\draw[a=\x7b[\x7d,color=red] (0, 0) -- (1, 0);".toList = .ok ts ∧ k ∈ ts ∧
      k.kind = .attributes ∧ k.text = .text "a=\x7b[\x7d,color=red" ∧
      splitOptions "a=\x7b[\x7d,color=red".toList = ["a=\x7b[\x7d,color=red".toList] ∧
      trimmedPieces (nestedPieces [.square] "a=\x7b[\x7d,color=red".toList) =
        ["a=\x7b[\x7d".toList, "color=red".toList] := by
  obtain ⟨ts, k, hts, hk, ha, htext⟩ := exists_attributes
    "\\draw[a=\x7b[\x7d,color=red] (0, 0) -- (1, 0);" "a=\x7b[\x7d,color=red" (by decide +kernel)
  exact ⟨ts, k, hts, hk, ha, htext, by decide +kernel, by decide +kernel⟩

end FeynmanTikz
