import HubBindings.Text.LineEnding

/-!
The lines of a text, and what normalising does to them.

* `lines` are what stands between the line breaks, whatever form these have;
* `normalizeChars_eq` says that normalising joins the lines by the chosen line ending, so that there
  is no other line break (`normalizeBreaks_breaksBy`);
* `lines_normalizeChars` says that normalising keeps the lines. Hence normalising twice is the same
  as only the second time (`normalizeBreaks_normalizeBreaks`).
-/

namespace HubBindings.Text

/-! ## Pairs -/

private theorem joinPairs_cons {c : Char} {cs : List Char} (h : c = '\r' → cs.head? ≠ some '\n') :
    joinPairs (c :: cs) = c :: joinPairs cs := by
  rw [joinPairs]
  intro rest hc hcs
  exact h hc (by rw [hcs]; rfl)

/-- A character other than `\r` is left alone, and `\r` is one line break unless `\n` follows. -/
theorem unifyBreaks_cons {c : Char} {cs : List Char} (h : c = '\r' → cs.head? ≠ some '\n') :
    unifyBreaks (c :: cs) = (if c = '\r' then '\n' else c) :: unifyBreaks cs := by
  rw [unifyBreaks, joinPairs_cons h, List.map_cons, unifyBreaks]

theorem unifyBreaks_pair (cs : List Char) :
    unifyBreaks ('\r' :: '\n' :: cs) = '\n' :: unifyBreaks cs := by
  rw [unifyBreaks, joinPairs, List.map_cons, unifyBreaks]
  rfl

private theorem not_mem_unifyBreaks (cs : List Char) : '\r' ∉ unifyBreaks cs := by
  intro h
  obtain ⟨c, _, hc⟩ := List.mem_map.mp h
  split at hc
  · cases hc
  · rename_i hne
    exact hne hc

/-- What follows a line break has no influence on what comes before. -/
theorem unifyBreaks_line (as : List Char) :
    ∃ us, ∀ bs, unifyBreaks (as ++ '\n' :: bs) = us ++ '\n' :: unifyBreaks bs := by
  fun_induction joinPairs as with
  | case1 rest ih =>
    obtain ⟨us, hus⟩ := ih
    refine ⟨'\n' :: us, fun bs => ?_⟩
    rw [List.cons_append, List.cons_append, unifyBreaks_pair, hus, List.cons_append]
  | case2 c rest hpair ih =>
    obtain ⟨us, hus⟩ := ih
    by_cases hlast : c = '\r' ∧ rest = []
    · obtain ⟨rfl, rfl⟩ := hlast
      exact ⟨[], fun bs => unifyBreaks_pair bs⟩
    · refine ⟨(if c = '\r' then '\n' else c) :: us, fun bs => ?_⟩
      rw [List.cons_append, unifyBreaks_cons, hus, List.cons_append]
      rintro rfl hhead
      cases rest with
      | nil => exact hlast ⟨rfl, rfl⟩
      | cons d rest =>
        cases hhead
        exact hpair rest rfl rfl
  | case3 =>
    refine ⟨[], fun bs => ?_⟩
    rw [List.nil_append, unifyBreaks_cons (fun h => absurd h (by decide))]
    rfl

/-! ## Lines -/

/-- The lines of a text, whatever line breaks stand between them. -/
def lines (cs : List Char) : List (List Char) := (unifyBreaks cs).splitOn '\n'

private theorem mem_of_mem_splitOn {x : Char} {cs l : List Char} (h : l ∈ cs.splitOn x) {c : Char}
    (hc : c ∈ l) : c ∈ cs ∧ c ≠ x := by
  induction cs generalizing l with
  | nil =>
    rw [List.splitOn_nil, List.mem_singleton] at h
    rw [h] at hc
    cases hc
  | cons d cs ih =>
    rw [List.splitOn_cons_eq_if_modifyHead] at h
    cases hsplit : cs.splitOn x with
    | nil => exact absurd hsplit (List.splitOn_ne_nil _ _)
    | cons first rest =>
      rw [hsplit] at h ih
      split at h
      · rcases List.mem_cons.mp h with rfl | h
        · cases hc
        · exact (ih h hc).imp_left (List.mem_cons_of_mem _)
      · rename_i hd
        rcases List.mem_cons.mp h with rfl | h
        · rcases List.mem_cons.mp hc with rfl | hc
          · exact ⟨List.mem_cons_self, fun e => hd (beq_iff_eq.mpr e)⟩
          · exact (ih List.mem_cons_self hc).imp_left (List.mem_cons_of_mem _)
        · exact (ih (List.mem_cons_of_mem _ h) hc).imp_left (List.mem_cons_of_mem _)

/-- No line has a line break inside. -/
theorem not_mem_of_mem_lines {cs l : List Char} (h : l ∈ lines cs) : '\r' ∉ l ∧ '\n' ∉ l :=
  ⟨fun hc => not_mem_unifyBreaks cs (mem_of_mem_splitOn h hc).1,
    fun hc => (mem_of_mem_splitOn h hc).2 rfl⟩

/-- The lines up to a line break do not depend on what follows. -/
theorem lines_line (as : List Char) : ∃ ls, ∀ bs, lines (as ++ '\n' :: bs) = ls ++ lines bs := by
  obtain ⟨us, hus⟩ := unifyBreaks_line as
  refine ⟨us.splitOn '\n', fun bs => ?_⟩
  rw [lines, hus, List.splitOn_append_cons_self, lines]

/-! ## Normalising -/

theorem flatMap_breaks (e cs : List Char) :
    cs.flatMap (fun c => if c = '\n' then e else [c]) = e.intercalate (cs.splitOn '\n') := by
  induction cs with
  | nil => rfl
  | cons c cs ih =>
    rw [List.flatMap_cons, List.splitOn_cons_eq_if_modifyHead, ih]
    cases hsplit : cs.splitOn '\n' with
    | nil => exact absurd hsplit (List.splitOn_ne_nil _ _)
    | cons first rest =>
      by_cases hc : c = '\n'
      · rw [if_pos hc, if_pos (beq_iff_eq.mpr hc), List.intercalate_cons_cons, List.nil_append]
      · rw [if_neg hc, if_neg (fun h => hc (beq_iff_eq.mp h)), List.modifyHead_cons]
        cases rest with
        | nil => simp
        | cons second rest => simp [List.intercalate_cons_cons]

/-- Normalising joins the lines by the chosen line ending. -/
theorem normalizeChars_eq (e : LineEnding) (cs : List Char) :
    normalizeChars e cs = e.chars.intercalate (lines cs) := flatMap_breaks _ _

/-- Line breaks in any of the three forms are recognised again. -/
theorem unifyBreaks_flatMap (e : LineEnding) {us : List Char} (h : '\r' ∉ us) :
    unifyBreaks (us.flatMap fun c => if c = '\n' then e.chars else [c]) = us := by
  induction us with
  | nil => rfl
  | cons c us ih =>
    have hc : c ≠ '\r' := fun e => h (e ▸ List.mem_cons_self)
    have hrest := ih fun hus => h (List.mem_cons_of_mem _ hus)
    rw [List.flatMap_cons]
    by_cases hbreak : c = '\n'
    · rw [if_pos hbreak, hbreak]
      cases e with
      | lf => exact (unifyBreaks_cons (fun h => absurd h (by decide))).trans (congrArg _ hrest)
      | crlf => exact (unifyBreaks_pair _).trans (congrArg _ hrest)
      | cr =>
        -- no `\n` is left that could make a pair with this line break
        refine (unifyBreaks_cons fun _ => ?_).trans (congrArg _ hrest)
        cases us with
        | nil => simp
        | cons d us => by_cases hd : d = '\n' <;> simp [hd, LineEnding.chars]
    · rw [if_neg hbreak, List.singleton_append, unifyBreaks_cons fun h => absurd h hc, if_neg hc,
        hrest]

private theorem unifyBreaks_normalizeChars (e : LineEnding) (cs : List Char) :
    unifyBreaks (normalizeChars e cs) = unifyBreaks cs :=
  unifyBreaks_flatMap e (not_mem_unifyBreaks cs)

/-- Normalising keeps the lines. -/
theorem lines_normalizeChars (e : LineEnding) (cs : List Char) :
    lines (normalizeChars e cs) = lines cs := by
  rw [lines, unifyBreaks_normalizeChars, lines]

/-- A text that was normalised may be normalised again in another form. -/
theorem normalizeBreaks_normalizeBreaks (e e' : LineEnding) (s : String) :
    normalizeBreaks e' (normalizeBreaks e s) = normalizeBreaks e' s := by
  rw [normalizeBreaks, normalizeBreaks, String.toList_ofList, normalizeChars,
    unifyBreaks_normalizeChars, normalizeBreaks, normalizeChars]

/-- The text is made of lines with one form of line breaks between them, and has no others. -/
def BreaksBy (e : LineEnding) (s : String) : Prop :=
  ∃ ls, (∀ l ∈ ls, '\r' ∉ l ∧ '\n' ∉ l) ∧ s.toList = e.chars.intercalate ls

theorem normalizeBreaks_breaksBy (e : LineEnding) (s : String) :
    BreaksBy e (normalizeBreaks e s) := by
  refine ⟨lines s.toList, fun _ => not_mem_of_mem_lines, ?_⟩
  rw [normalizeBreaks, String.toList_ofList, normalizeChars_eq]

end HubBindings.Text
