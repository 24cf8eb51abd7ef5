import AegisMerchant.Base.Text

/-!
# The lines of a text file

`open(..).read()` with universal newlines, and `str.splitlines`. A text that is written a line at a
time is split into the same lines, if no line holds a line break of its own.

`splitlines_unlines` is the round trip of lines that hold no break.
-/

namespace Text

/-- The characters at which `str.splitlines` ends a line. -/
def isLineBreak (c : Char) : Bool :=
  let n := c.toNat
  (10 ≤ n && n ≤ 13) || (28 ≤ n && n ≤ 30) || n == 0x85 || n == 0x2028 || n == 0x2029

/-- Universal newlines: every end of a line is read as `\n`. -/
def universalNewlines : List Char → List Char
  | [] => []
  | '\r' :: '\n' :: rest => '\n' :: universalNewlines rest
  | '\r' :: rest => '\n' :: universalNewlines rest
  | c :: rest => c :: universalNewlines rest

def consFirst (c : Char) : List (List Char) → List (List Char)
  | [] => [[c]]
  | line :: rest => (c :: line) :: rest

def splitlines : List Char → List (List Char)
  | [] => []
  | '\r' :: '\n' :: rest => [] :: splitlines rest
  | c :: rest => if isLineBreak c then [] :: splitlines rest else consFirst c (splitlines rest)

def unlines (lines : List (List Char)) : List Char := lines.flatMap fun line => line ++ ['\n']

/-- Without a break of its own. -/
def Unbroken (line : List Char) : Prop := ∀ c ∈ line, isLineBreak c = false

/-- Nothing, or a text that ends a line. -/
def Ended (cs : List Char) : Prop := ∀ c ∈ cs.getLast?, c = '\n'

theorem isLineBreak_newline : isLineBreak '\n' = true := by decide

theorem splitlines_newline (rest : List Char) :
    splitlines ('\n' :: rest) = [] :: splitlines rest := by
  rw [splitlines, if_pos isLineBreak_newline]
  rintro _ ⟨⟩

theorem splitlines_cons {c : Char} (h : isLineBreak c = false) (rest : List Char) :
    splitlines (c :: rest) = consFirst c (splitlines rest) := by
  rw [splitlines, if_neg (by rw [h]; decide)]
  rintro _ rfl
  exact absurd h (by decide)

/-- A line is split off at its end. -/
theorem splitlines_line {line : List Char} (h : Unbroken line) (rest : List Char) :
    splitlines (line ++ '\n' :: rest) = line :: splitlines rest := by
  induction line with
  | nil => exact splitlines_newline rest
  | cons c line ih =>
    have htail := ih fun d hd => h d (List.mem_cons_of_mem c hd)
    rw [List.cons_append, splitlines_cons (h c List.mem_cons_self), htail]
    rfl

theorem unlines_cons (line : List Char) (lines : List (List Char)) :
    unlines (line :: lines) = line ++ '\n' :: unlines lines := by
  rw [unlines, List.flatMap_cons, List.append_assoc]
  rfl

theorem unlines_append (lines more : List (List Char)) :
    unlines (lines ++ more) = unlines lines ++ unlines more := List.flatMap_append

/-- **What was written a line at a time is split into the same lines.** -/
theorem splitlines_unlines {lines : List (List Char)} (h : ∀ line ∈ lines, Unbroken line) :
    splitlines (unlines lines) = lines := by
  induction lines with
  | nil => rfl
  | cons line lines ih =>
    rw [unlines_cons, splitlines_line (h line List.mem_cons_self),
      ih fun l hl => h l (List.mem_cons_of_mem line hl)]

/-- Lines that were written end a line. -/
theorem ended_unlines (lines : List (List Char)) : Ended (unlines lines) := by
  intro c hc
  rcases List.eq_nil_or_concat lines with rfl | ⟨init, last, rfl⟩
  · cases hc
  · rw [List.concat_eq_append, unlines_append, unlines_cons, ← List.append_assoc] at hc
    exact (Option.some.inj (List.getLast?_concat.symm.trans hc)).symm

theorem consFirst_append {c : Char} {lines more : List (List Char)} (h : lines ≠ []) :
    consFirst c (lines ++ more) = consFirst c lines ++ more := by
  obtain ⟨line, rest, rfl⟩ := List.exists_cons_of_ne_nil h
  rfl

theorem consFirst_ne_nil (c : Char) (lines : List (List Char)) : consFirst c lines ≠ [] := by
  cases lines <;> exact List.cons_ne_nil _ _

theorem splitlines_ne_nil {cs : List Char} (h : cs ≠ []) : splitlines cs ≠ [] := by
  fun_cases splitlines cs with
  | case1 => exact absurd rfl h
  | case2 => exact List.cons_ne_nil _ _
  | case3 => exact List.cons_ne_nil _ _
  | case4 => exact consFirst_ne_nil _ _

theorem Ended.tail {c : Char} {cs : List Char} (h : Ended (c :: cs)) : Ended cs := by
  intro d hd
  cases cs with
  | nil => cases hd
  | cons e cs => exact h d hd

/-- What is appended after the end of a line starts a new one. -/
theorem splitlines_append {cs : List Char} (h : Ended cs) (more : List Char) :
    splitlines (cs ++ more) = splitlines cs ++ splitlines more := by
  induction cs using splitlines.induct with
  | case1 => rfl
  | case2 rest ih =>
    have htail := ih h.tail.tail
    rw [List.cons_append, List.cons_append, splitlines, splitlines, htail, List.cons_append]
  | case3 c rest hpair hbreak ih =>
    have htail := ih h.tail
    have hpair' : ∀ r, c = '\r' → rest ++ more = '\n' :: r → False := by
      intro r hc hrest
      cases rest with
      | nil =>
        have hlast : c = '\n' := h c rfl
        rw [hc] at hlast
        exact absurd hlast (by decide)
      | cons d rest =>
        rw [List.cons_append] at hrest
        exact hpair rest hc (by rw [(List.cons.inj hrest).1])
    rw [List.cons_append, splitlines, splitlines, if_pos hbreak, if_pos hbreak, htail,
      List.cons_append]
    · exact hpair
    · exact hpair'
  | case4 c rest hpair hbreak ih =>
    have hbreak' := Bool.eq_false_iff.mpr hbreak
    have hrest : rest ≠ [] := by
      rintro rfl
      have hlast : c = '\n' := h c rfl
      rw [hlast] at hbreak
      exact hbreak isLineBreak_newline
    rw [List.cons_append, splitlines_cons hbreak', splitlines_cons hbreak', ih h.tail,
      consFirst_append (splitlines_ne_nil hrest)]

/-- Universal newlines change no line. -/
theorem splitlines_universalNewlines (cs : List Char) :
    splitlines (universalNewlines cs) = splitlines cs := by
  induction cs using universalNewlines.induct with
  | case1 => rfl
  | case2 rest ih => rw [universalNewlines, splitlines_newline, ih, splitlines]
  | case3 rest hpair ih =>
    rw [universalNewlines, splitlines_newline, ih, splitlines, if_pos (by decide)]
    · exact fun r _ hr => hpair r hr
    · exact hpair
  | case4 c rest hpair hreturn ih =>
    rw [universalNewlines]
    · by_cases hbreak : isLineBreak c
      · rw [splitlines, splitlines, if_pos hbreak, if_pos hbreak, ih]
        · exact hpair
        · exact fun _ hc _ => hreturn hc
      · have hbreak' := Bool.eq_false_iff.mpr hbreak
        rw [splitlines_cons hbreak', splitlines_cons hbreak', ih]
    · exact hpair
    · exact hreturn

end Text
