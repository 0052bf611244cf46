/-
Texts and their lines.

* `OneLine`: a text stays on a line,
* `lines_onLines`: a text is cut into the lines it has been put together from,
* `oneLine_of_mem_lines`: what a text is cut into are lines,
* `exists_cut`: where a text that does not stay on a line is cut first.
-/
import FeynmanTikz.Text.Line

namespace FeynmanTikz

/-- Whether all characters of a text have a property is decided by looking at each of them. -/
instance decidableForallMem (p : Char → Prop) [DecidablePred p] (t : List Char) :
    Decidable (∀ c ∈ t, p c) :=
  List.decidableBAll p t

/-- A text that stays on one line. -/
def OneLine (t : List Char) : Prop := ∀ c ∈ t, isLineBoundary c = false

instance (t : List Char) : Decidable (OneLine t) :=
  inferInstanceAs (Decidable (∀ c ∈ t, isLineBoundary c = false))

namespace OneLine

theorem nil : OneLine [] := fun _ hc => absurd hc List.not_mem_nil

theorem cons {c : Char} {t : List Char} (hc : isLineBoundary c = false) (ht : OneLine t) :
    OneLine (c :: t) := by
  intro d hd
  rcases List.mem_cons.1 hd with rfl | hd
  · exact hc
  · exact ht d hd

theorem append {t u : List Char} (ht : OneLine t) (hu : OneLine u) : OneLine (t ++ u) := by
  intro c hc
  rcases List.mem_append.1 hc with hc | hc
  · exact ht c hc
  · exact hu c hc

theorem newline_notMem {t : List Char} (h : OneLine t) : '\n' ∉ t :=
  fun hm => absurd (h _ hm) (by decide)

end OneLine

/-- Lines with a line feed after each. -/
def onLines (ls : List (List Char)) : List Char := ls.flatMap (· ++ ['\n'])

theorem onLines_append (ls ms : List (List Char)) : onLines (ls ++ ms) = onLines ls ++ onLines ms :=
  List.flatMap_append

theorem lines_cons {c : Char} (hc : c ≠ '\r') (t : List Char) :
    lines (c :: t) = if isLineBoundary c then [] :: lines t else consFirst c (lines t) := by
  rw [lines.eq_def]
  split
  · contradiction
  · rename_i h
    exact absurd (List.cons.inj h).1 hc
  · rename_i h
    obtain ⟨rfl, rfl⟩ := List.cons.inj h
    rfl

/-- A text is cut at every line boundary; one that begins a pair is left aside here. -/
theorem lines_append {l : List Char} (hl : OneLine l) {c : Char} (hc : isLineBoundary c = true)
    (hne : c ≠ '\r') (t : List Char) : lines (l ++ c :: t) = l :: lines t := by
  induction l with
  | nil => rw [List.nil_append, lines_cons hne, if_pos hc]
  | cons d l ih =>
    have hd : isLineBoundary d = false := hl d List.mem_cons_self
    have hdne : d ≠ '\r' := by
      rintro rfl
      exact absurd hd (by decide)
    rw [List.cons_append, lines_cons hdne, if_neg (by rw [hd]; decide),
      ih fun e he => hl e (List.mem_cons_of_mem _ he)]
    rfl

theorem lines_onLines_append (t : List Char) : ∀ {ls : List (List Char)}, (∀ l ∈ ls, OneLine l) →
    lines (onLines ls ++ t) = ls ++ lines t
  | [], _ => rfl
  | l :: ls, h => by
    show lines (((l ++ ['\n']) ++ onLines ls) ++ t) = _
    rw [List.append_assoc, List.append_assoc, List.singleton_append,
      lines_append (h l List.mem_cons_self) (by decide) (by decide),
      lines_onLines_append t fun m hm => h m (List.mem_cons_of_mem _ hm)]
    rfl

/-- A text is cut into the lines it has been put together from. -/
theorem lines_onLines {ls : List (List Char)} (h : ∀ l ∈ ls, OneLine l) : lines (onLines ls) = ls := by
  have hls := lines_onLines_append [] h
  rw [List.append_nil] at hls
  rw [hls, lines, List.append_nil]

/-- A text that is one line has no other. -/
theorem lines_of_oneLine : ∀ {t : List Char}, OneLine t → t ≠ [] → lines t = [t]
  | [c], h, _ => by
    have hc := h c List.mem_cons_self
    rw [lines_cons (by rintro rfl; exact absurd hc (by decide)), if_neg (by rw [hc]; decide)]
    rfl
  | c :: d :: t, h, _ => by
    have hc := h c List.mem_cons_self
    have ih := lines_of_oneLine (t := d :: t) (fun x hx => h x (List.mem_cons_of_mem _ hx)) (by simp)
    rw [lines_cons (by rintro rfl; exact absurd hc (by decide)), if_neg (by rw [hc]; decide), ih]
    rfl

/-- What has been cut into lines has no line boundary in it. -/
theorem oneLine_of_mem_lines {t : List Char} : ∀ {l : List Char}, l ∈ lines t → OneLine l := by
  induction t using lines.induct with
  | case1 =>
    intro l hl
    cases hl
  | case2 rest ih =>
    intro l hl
    rcases List.mem_cons.1 hl with rfl | hl
    · exact .nil
    · exact ih hl
  | case3 c rest hne hc ih =>
    intro l hl
    rw [lines, if_pos hc] at hl
    · rcases List.mem_cons.1 hl with rfl | hl
      · exact .nil
      · exact ih hl
    · exact hne
  | case4 c rest hne hc ih =>
    intro l hl
    rw [lines, if_neg hc] at hl
    · have hc : isLineBoundary c = false := Bool.eq_false_iff.2 hc
      -- The character goes to the front of the first line of the rest.
      cases hls : lines rest with
      | nil =>
        rw [hls] at hl
        rw [List.mem_singleton.1 hl]
        exact .cons hc .nil
      | cons m ms =>
        rw [hls] at hl ih
        rcases List.mem_cons.1 hl with rfl | hl
        · exact .cons hc (ih List.mem_cons_self)
        · exact ih (List.mem_cons_of_mem _ hl)
    · exact hne

/-- Where a text that does not stay on a line is cut first. -/
theorem exists_cut {t : List Char} (h : ¬OneLine t) :
    ∃ a c b, t = a ++ c :: b ∧ OneLine a ∧ isLineBoundary c = true := by
  induction t with
  | nil => exact absurd .nil h
  | cons c t ih =>
    by_cases hc : isLineBoundary c = true
    · exact ⟨[], c, t, rfl, .nil, hc⟩
    · have hc : isLineBoundary c = false := Bool.eq_false_iff.2 hc
      obtain ⟨a, d, b, rfl, ha, hd⟩ := ih fun ht => h (.cons hc ht)
      exact ⟨c :: a, d, b, rfl, .cons hc ha, hd⟩

end FeynmanTikz
