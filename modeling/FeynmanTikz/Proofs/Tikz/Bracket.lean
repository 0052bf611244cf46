/-
How a text changes the brackets that are open.

* `passes s t`: the brackets that are open after `t`, if those in `s` are open before it and the
  outermost one stays open,
* `scanClosing_of_passes`: the scanner goes through such a text, so `scanClosing_closed` finds the
  partner of the outermost bracket right after it,
* `passes_of_closed`: whatever it returns is such a text, `getLast?_passes`: the outermost bracket is
  the same after it, and `passes_of_closed_alone` for a single bracket,
* `passes_of_balanced`: a text with balanced braces leaves the open braces as they were, and
  `balanced_of_passes`: no other does,
* `scanClosing_unterminated`: a beginning of such a text closes nothing,
* `isWithin_scanClosing`: whatever the scanner finds stands in the text, `eq_of_scanClosing`: which is
  what it returns around the closing bracket.

Design notes.
* The stack of `passes` is a list with the innermost bracket first; the scanner keeps the first of
  these apart.
-/
import FeynmanTikz.Proofs.Tikz.LabelText
import FeynmanTikz.Tikz.Bracket

namespace FeynmanTikz

/-- The open brackets after a character; nothing if it closes the outermost one or a wrong one. -/
def stackAfter : List Bracket → Char → Option (List Bracket)
  | [], _ => none
  | inner :: outer, c =>
    match opens? inner c with
    | some b => some (b :: inner :: outer)
    | none =>
      if closes inner c then if c = inner.closing ∧ outer ≠ [] then some outer else none
      else some (inner :: outer)

/-- The open brackets after a text. -/
def passes : List Bracket → List Char → Option (List Bracket)
  | s, [] => some s
  | _, '\\' :: [] => none
  | s, '\\' :: _ :: rest => passes s rest
  | s, c :: rest => do passes (← stackAfter s c) rest

theorem Scan.after_nil (s : Scan) : s.after [] = s := by
  cases s <;> simp [Scan.after]

theorem Scan.after_after (cs ds : List Char) (s : Scan) :
    (s.after ds).after cs = s.after (cs ++ ds) := by
  cases s <;> simp [Scan.after, Nat.add_assoc]

theorem passes_cons {c : Char} (hc : c ≠ '\\') (s : List Bracket) (rest : List Char) :
    passes s (c :: rest) = (stackAfter s c).bind (passes · rest) := by
  rw [passes.eq_def]
  split
  · contradiction
  · rename_i h
    exact absurd (List.cons.inj h).1 hc
  · rename_i h
    exact absurd (List.cons.inj h).1 hc
  · rename_i h
    cases h
    rfl

theorem stackAfter_ne_nil {s s' : List Bracket} {c : Char} (h : stackAfter s c = some s') : s' ≠ [] := by
  unfold stackAfter at h
  split at h
  · cases h
  · split at h
    · cases h
      simp
    · split at h
      · split at h
        · cases h
          simp_all
        · cases h
      · cases h
        simp

theorem scanClosing_cons {c : Char} (hc : c ≠ '\\') (inner : Bracket) (outer : List Bracket)
    (rest : List Char) : scanClosing inner outer (c :: rest) = match opens? inner c with
      | some b => (scanClosing b (inner :: outer) rest).after [c]
      | none =>
        if closes inner c then
          if c ≠ inner.closing then .mismatched 0 c
          else match outer with
            | [] => .closed [] rest
            | b :: bs => (scanClosing b bs rest).after [c]
        else (scanClosing inner outer rest).after [c] := by
  conv => lhs; rw [scanClosing.eq_def]
  split
  · contradiction
  · rename_i h
    exact absurd (List.cons.inj h).1 hc
  · rename_i h
    exact absurd (List.cons.inj h).1 hc
  · rename_i h
    obtain ⟨rfl, rfl⟩ := List.cons.inj h
    rfl

theorem scanClosing_stackAfter {inner inner' : Bracket} {outer outer' : List Bracket} {c : Char}
    (hc : c ≠ '\\') (h : stackAfter (inner :: outer) c = some (inner' :: outer')) (rest : List Char) :
    scanClosing inner outer (c :: rest) = (scanClosing inner' outer' rest).after [c] := by
  rw [scanClosing_cons hc]
  unfold stackAfter at h
  dsimp only at h
  rcases ho : opens? inner c with _ | b
  · rw [ho] at h
    dsimp only at h ⊢
    by_cases hcl : closes inner c = true
    · rw [if_pos hcl] at h ⊢
      by_cases hcc : c = inner.closing ∧ outer ≠ []
      · rw [if_pos hcc] at h
        cases h
        rw [if_neg (by simpa using hcc.1)]
      · rw [if_neg hcc] at h
        cases h
    · rw [if_neg hcl] at h ⊢
      cases h
      rfl
  · rw [ho] at h
    cases h
    rfl

theorem ne_escape_of_other {c : Char} {rest : List Char} (h₁ : c = '\\' → rest = [] → False)
    (h₂ : ∀ d t, c = '\\' → rest = d :: t → False) : c ≠ '\\' := by
  rintro rfl
  cases rest with
  | nil => exact h₁ rfl rfl
  | cons d t => exact h₂ d t rfl rfl

/-- The scanner goes through a text that leaves the outermost bracket open. -/
theorem scanClosing_of_passes {t : List Char} : ∀ {inner inner' : Bracket}
    {outer outer' : List Bracket} (rest : List Char),
    passes (inner :: outer) t = some (inner' :: outer') →
      scanClosing inner outer (t ++ rest) = (scanClosing inner' outer' rest).after t := by
  intro inner inner' outer outer' rest h
  -- The induction is along the text, so the open brackets must be free to change.
  generalize hs : inner :: outer = s at h
  induction s, t using passes.induct generalizing inner outer with
  | case1 s =>
    cases hs
    cases h
    exact (Scan.after_nil _).symm
  | case2 s => cases h
  | case3 s c t ih =>
    show (scanClosing inner outer (t ++ rest)).after ['\\', c] = _
    rw [ih hs h, Scan.after_after]
    rfl
  | case4 s c t h₁ h₂ ih =>
    have hc := ne_escape_of_other h₁ h₂
    rw [passes_cons hc] at h
    obtain ⟨s', hs', h'⟩ := Option.bind_eq_some_iff.1 h
    obtain ⟨i, o, rfl⟩ := List.exists_cons_of_ne_nil (stackAfter_ne_nil hs')
    subst hs
    rw [List.cons_append, scanClosing_stackAfter hc hs', ih _ rfl h', Scan.after_after]
    rfl

/-- A text that leaves the outermost bracket open and no other is all that stands before its
partner. -/
theorem scanClosing_closed {b : Bracket} {t : List Char} (h : passes [b] t = some [b])
    (rest : List Char) : scanClosing b [] (t ++ b.closing :: rest) = .closed t rest := by
  rw [scanClosing_of_passes _ h]
  cases b <;> simp [scanClosing, opens?, closes, Bracket.closing, Scan.after]

/-- What the scanner returns is the text around the closing bracket, and the bracket it complains of
stands in the text. -/
def Scan.IsWithin (b : Bracket) (t : List Char) : Scan → Prop
  | closed content rest => t = content ++ b.closing :: rest
  | mismatched offset _ => offset < t.length
  | unterminated => True

theorem Scan.IsWithin.after {b : Bracket} {s : Scan} {t : List Char} (h : s.IsWithin b t)
    (u : List Char) : (s.after u).IsWithin b (u ++ t) := by
  cases s with
  | closed content rest =>
    have h : t = content ++ b.closing :: rest := h
    show u ++ t = u ++ content ++ b.closing :: rest
    rw [h, List.append_assoc]
  | mismatched offset got =>
    have h : offset < t.length := h
    show u.length + offset < (u ++ t).length
    rw [List.length_append]
    omega
  | unterminated => trivial

/-- Each turn of the scanner puts the characters it has read in front of what it finds later, and the
outermost bracket stays the same. -/
theorem isWithin_scanClosing {inner b : Bracket} {outer : List Bracket} {t : List Char}
    (hb : (inner :: outer).getLast? = some b) : (scanClosing inner outer t).IsWithin b t := by
  induction inner, outer, t using scanClosing.induct with
  | case1 inner outer => trivial
  | case2 inner outer => trivial
  | case3 inner outer c t ih => exact (ih hb).after ['\\', c]
  | case4 inner outer c t h₁ h₂ b' ho ih =>
    rw [scanClosing_cons (ne_escape_of_other h₁ h₂), ho]
    exact (ih (by rwa [List.getLast?_cons_cons])).after [c]
  | case5 inner outer c t h₁ h₂ ho hcl hcc =>
    rw [scanClosing_cons (ne_escape_of_other h₁ h₂), ho]
    dsimp only
    rw [if_pos hcl, if_pos hcc]
    exact Nat.zero_lt_succ _
  | case6 inner c t h₁ h₂ ho hcl hcc =>
    rw [scanClosing_cons (ne_escape_of_other h₁ h₂), ho]
    dsimp only
    rw [if_pos hcl, if_neg hcc]
    obtain rfl : inner = b := Option.some.inj hb
    obtain rfl : c = inner.closing := by simpa using hcc
    rfl
  | case7 inner c t h₁ h₂ ho hcl hcc b' bs ih =>
    rw [scanClosing_cons (ne_escape_of_other h₁ h₂), ho]
    dsimp only
    rw [if_pos hcl, if_neg hcc]
    exact (ih (by rwa [List.getLast?_cons_cons] at hb)).after [c]
  | case8 inner outer c t h₁ h₂ ho hcl ih =>
    rw [scanClosing_cons (ne_escape_of_other h₁ h₂), ho]
    dsimp only
    rw [if_neg hcl]
    exact (ih hb).after [c]

/-- What has been scanned is what stands before the closing bracket, that bracket, and the rest. -/
theorem eq_of_scanClosing {b : Bracket} {t content rest : List Char}
    (h : scanClosing b [] t = .closed content rest) : t = content ++ b.closing :: rest := by
  have hw : (scanClosing b [] t).IsWithin b t := isWithin_scanClosing rfl
  rw [h] at hw
  exact hw

theorem offset_lt_of_scanClosing {inner : Bracket} {outer : List Bracket} {t : List Char}
    {offset : Nat} {got : Char} (h : scanClosing inner outer t = .mismatched offset got) :
    offset < t.length := by
  have hw := isWithin_scanClosing (t := t) (List.getLast?_eq_some_getLast (List.cons_ne_nil inner outer))
  rw [h] at hw
  exact hw

theorem passes_append {s r : List Bracket} {t : List Char} (h : passes s t = some r)
    (u : List Char) : passes s (t ++ u) = passes r u := by
  induction s, t using passes.induct with
  | case1 s =>
    cases h
    rfl
  | case2 s => cases h
  | case3 s c t ih => exact ih h
  | case4 s c t h₁ h₂ ih =>
    have hc := ne_escape_of_other h₁ h₂
    rw [passes_cons hc] at h
    rw [List.cons_append, passes_cons hc]
    obtain ⟨s'', hs, h⟩ := Option.bind_eq_some_iff.1 h
    rw [hs]
    exact ih _ h

/-- Characters that open and close nothing pass. -/
theorem passes_inert {b : Bracket} {s : List Bracket} : ∀ {t : List Char},
    (∀ c ∈ t, c ≠ '\\' ∧ opens? b c = none ∧ closes b c = false) → passes (b :: s) t = some (b :: s)
  | [], _ => rfl
  | c :: t, h => by
    obtain ⟨hc, ho, hcl⟩ := h c List.mem_cons_self
    rw [passes_cons hc, stackAfter, ho]
    dsimp only
    rw [hcl]
    exact passes_inert fun c hc => h c (List.mem_cons_of_mem _ hc)

/-- The outermost bracket stays open. -/
theorem getLast?_stackAfter {s s' : List Bracket} {c : Char} (h : stackAfter s c = some s') :
    s'.getLast? = s.getLast? := by
  cases s with
  | nil => cases h
  | cons inner outer =>
    unfold stackAfter at h
    dsimp only at h
    split at h
    · cases h
      rw [List.getLast?_cons_cons]
    · split at h
      · split at h
        · rename_i hclosed
          cases h
          obtain ⟨b, bs, rfl⟩ := List.exists_cons_of_ne_nil hclosed.2
          rw [List.getLast?_cons_cons]
        · cases h
      · cases h
        rfl

theorem getLast?_passes {s r : List Bracket} {t : List Char} (h : passes s t = some r) :
    r.getLast? = s.getLast? := by
  induction s, t using passes.induct with
  | case1 s =>
    cases h
    rfl
  | case2 s => cases h
  | case3 s c t ih => exact ih h
  | case4 s c t h₁ h₂ ih =>
    rw [passes_cons (ne_escape_of_other h₁ h₂)] at h
    obtain ⟨s', hs, h⟩ := Option.bind_eq_some_iff.1 h
    rw [ih _ h, getLast?_stackAfter hs]

theorem after_eq_closed {cs content rest : List Char} {s : Scan} :
    s.after cs = .closed content rest ↔ ∃ content', s = .closed content' rest ∧ content = cs ++ content' := by
  cases s with
  | closed content' rest' =>
    simp only [Scan.after, Scan.closed.injEq]
    constructor
    · rintro ⟨rfl, rfl⟩
      exact ⟨content', ⟨rfl, rfl⟩, rfl⟩
    · rintro ⟨_, ⟨rfl, rfl⟩, rfl⟩
      exact ⟨rfl, rfl⟩
  | _ => simp [Scan.after]

/-- What stands before the partner of the outermost bracket leaves that bracket open and no other. -/
theorem passes_of_closed {inner : Bracket} {outer : List Bracket} {t content rest : List Char}
    (h : scanClosing inner outer t = .closed content rest) :
    ∃ b, passes (inner :: outer) content = some [b] := by
  induction inner, outer, t using scanClosing.induct generalizing content with
  | case1 inner outer => cases h
  | case2 inner outer => cases h
  | case3 inner outer c t ih =>
    replace h : (scanClosing inner outer t).after ['\\', c] = .closed content rest := h
    obtain ⟨content', hscan, rfl⟩ := after_eq_closed.1 h
    show ∃ b, passes (inner :: outer) content' = some [b]
    exact ih hscan
  | case4 inner outer c t h₁ h₂ b ho ih =>
    have hc := ne_escape_of_other h₁ h₂
    rw [scanClosing_cons hc, ho] at h
    obtain ⟨content', hscan, rfl⟩ := after_eq_closed.1 h
    have hturn : stackAfter (inner :: outer) c = some (b :: inner :: outer) := by
      rw [stackAfter, ho]
    rw [List.singleton_append, passes_cons hc, hturn]
    exact ih hscan
  | case5 inner outer c t h₁ h₂ ho hcl hcc =>
    rw [scanClosing_cons (ne_escape_of_other h₁ h₂), ho] at h
    dsimp only at h
    rw [if_pos hcl, if_pos hcc] at h
    cases h
  | case6 inner c t h₁ h₂ ho hcl hcc =>
    rw [scanClosing_cons (ne_escape_of_other h₁ h₂), ho] at h
    dsimp only at h
    rw [if_pos hcl, if_neg hcc] at h
    cases h
    exact ⟨inner, rfl⟩
  | case7 inner c t h₁ h₂ ho hcl hcc b bs ih =>
    have hc := ne_escape_of_other h₁ h₂
    rw [scanClosing_cons hc, ho] at h
    dsimp only at h
    rw [if_pos hcl, if_neg hcc] at h
    obtain ⟨content', hscan, rfl⟩ := after_eq_closed.1 h
    have hturn : stackAfter (inner :: b :: bs) c = some (b :: bs) := by
      rw [stackAfter, ho]
      dsimp only
      rw [if_pos hcl, if_pos ⟨by simpa using hcc, by simp⟩]
    rw [List.singleton_append, passes_cons hc, hturn]
    exact ih hscan
  | case8 inner outer c t h₁ h₂ ho hcl ih =>
    have hc := ne_escape_of_other h₁ h₂
    rw [scanClosing_cons hc, ho] at h
    dsimp only at h
    rw [if_neg hcl] at h
    obtain ⟨content', hscan, rfl⟩ := after_eq_closed.1 h
    have hturn : stackAfter (inner :: outer) c = some (inner :: outer) := by
      rw [stackAfter, ho]
      exact if_neg hcl
    rw [List.singleton_append, passes_cons hc, hturn]
    exact ih hscan

/-- What stands before the partner of the only open bracket leaves that bracket open. -/
theorem passes_of_closed_alone {b : Bracket} {t content rest : List Char}
    (h : scanClosing b [] t = .closed content rest) : passes [b] content = some [b] := by
  obtain ⟨c, hc⟩ := passes_of_closed h
  obtain rfl : c = b := by simpa using getLast?_passes hc
  exact hc

/-! ### Balanced braces -/

/-- Braces around braces, `k` of them. -/
def braces (k : Nat) : List Bracket := List.replicate k .brace

theorem stackAfter_plain {c : Char} (hc : isPlain c = true) (k : Nat) :
    stackAfter (braces (k + 1)) c = some (braces (k + 1)) := by
  simp only [isPlain, Bool.and_eq_true, bne_iff_ne] at hc
  simp [braces, List.replicate_succ, stackAfter, opens?, closes, hc.1.2, hc.2]

/-- A text with balanced braces leaves the open braces as they were. -/
theorem passes_of_balanced {k : Nat} {t : List Char} (hb : bracesBalancedFrom k t = true)
    (he : endsInEscape t = false) : passes (braces (k + 1)) t = some [.brace] := by
  -- An escape takes its character along, a brace changes `k`, a plain character changes nothing.
  induction k, t using bracesBalancedFrom.induct with
  | case1 k =>
    obtain rfl : k = 0 := by simpa [bracesBalancedFrom] using hb
    rfl
  | case2 k => exact absurd he (by decide)
  | case3 k c rest ih =>
    rw [endsInEscape_escape] at he
    exact ih hb he
  | case4 k rest ih =>
    rw [endsInEscape_cons (by decide)] at he
    exact ih hb he
  | case5 rest => cases hb
  | case6 k rest ih =>
    rw [endsInEscape_cons (by decide)] at he
    rw [passes_cons (by decide)]
    exact ih hb he
  | case7 k c rest h₁ h₂ h₃ h₄ h₅ ih =>
    have hc := isPlain_of_other h₁ h₂ h₃ h₄ h₅
    have hne : c ≠ '\\' := by
      rintro rfl
      exact absurd hc (by decide)
    rw [endsInEscape_cons hne] at he
    rw [bracesBalancedFrom_plain hc] at hb
    rw [passes_cons hne, stackAfter_plain hc]
    exact ih hb he

/-- The only texts that leave the open braces as they were have balanced braces and do not escape what
follows them. -/
theorem balanced_of_passes {k : Nat} {t : List Char} (h : passes (braces (k + 1)) t = some [.brace]) :
    bracesBalancedFrom k t = true ∧ endsInEscape t = false := by
  induction k, t using bracesBalancedFrom.induct with
  | case1 k =>
    obtain rfl : k = 0 := by simpa [braces] using congrArg List.length (Option.some.inj h)
    exact ⟨rfl, rfl⟩
  | case2 k => cases h
  | case3 k c rest ih =>
    rw [endsInEscape_escape]
    exact ih h
  | case4 k rest ih =>
    rw [endsInEscape_cons (by decide)]
    exact ih h
  | case5 rest => cases h
  | case6 k rest ih =>
    rw [passes_cons (by decide)] at h
    rw [endsInEscape_cons (by decide)]
    exact ih h
  | case7 k c rest h₁ h₂ h₃ h₄ h₅ ih =>
    have hc := isPlain_of_other h₁ h₂ h₃ h₄ h₅
    have hne : c ≠ '\\' := by
      rintro rfl
      exact absurd hc (by decide)
    rw [passes_cons hne, stackAfter_plain hc] at h
    rw [bracesBalancedFrom_plain hc, endsInEscape_cons hne]
    exact ih h

/-- A beginning of a text with balanced braces closes nothing that was open before it. -/
theorem scanClosing_unterminated {k : Nat} {t u : List Char}
    (hb : bracesBalancedFrom k (t ++ u) = true) :
    scanClosing .brace (braces k) t = .unterminated := by
  induction k, t using bracesBalancedFrom.induct with
  | case1 k => rfl
  | case2 k => rfl
  | case3 k c rest ih =>
    show (scanClosing .brace (braces k) rest).after ['\\', c] = _
    rw [ih hb]
    rfl
  | case4 k rest ih =>
    show (scanClosing .brace (braces (k + 1)) rest).after _ = _
    rw [ih hb]
    rfl
  | case5 rest => cases hb
  | case6 k rest ih =>
    show (scanClosing .brace (braces k) rest).after _ = _
    rw [ih hb]
    rfl
  | case7 k c rest h₁ h₂ h₃ h₄ h₅ ih =>
    have hc := isPlain_of_other h₁ h₂ h₃ h₄ h₅
    have hne : c ≠ '\\' := by
      rintro rfl
      exact absurd hc (by decide)
    rw [List.cons_append, bracesBalancedFrom_plain hc] at hb
    have hturn : stackAfter (.brace :: braces k) c = some (.brace :: braces k) := stackAfter_plain hc k
    rw [scanClosing_stackAfter hne hturn, ih hb]
    rfl

end FeynmanTikz
