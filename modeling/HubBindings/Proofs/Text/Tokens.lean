import HubBindings.Proofs.Text.LineEnding
import Mathlib.Data.List.Basic

/-!
A text as line breaks and other characters, and normalising as one pass over them.

* `Token.read` goes through a text once and takes the longest line break at each place;
* `Token.read_eq_iff`: there is no other way to cut a text into line breaks and other characters
  without cutting `\r\n` in two;
* `normalizeBreaks_one_pass`: normalising puts the chosen line ending in the place of each line
  break and keeps the rest, and only the last of several normalisings counts.
-/

namespace HubBindings.Text

/-- A line break in one of its forms, or another character. -/
inductive Token where
  | lineBreak (form : LineEnding)
  | other (c : Char)
  deriving DecidableEq, Repr

namespace Token

/-- The characters of a token. -/
def chars : Token → List Char
  | lineBreak form => form.chars
  | other c => [c]

/-- The characters of a token, with `e` in the place of a line break. -/
def charsBy (e : LineEnding) : Token → List Char
  | lineBreak _ => e.chars
  | other c => [c]

/-- Reads a text from left to right. A pair `\r\n` is one line break. -/
def read : List Char → List Token
  | '\r' :: '\n' :: rest => lineBreak .crlf :: read rest
  | '\r' :: rest => lineBreak .cr :: read rest
  | '\n' :: rest => lineBreak .lf :: read rest
  | c :: rest => other c :: read rest
  | [] => []

/-- Line breaks are not taken for other characters, and no pair `\r\n` is cut in two. -/
structure Longest (ts : List Token) : Prop where
  others : ∀ c, other c ∈ ts → c ≠ '\r' ∧ c ≠ '\n'
  pairs : ∀ before after, ts ≠ before ++ lineBreak .cr :: lineBreak .lf :: after

/-! ## Reading -/

theorem read_cr {cs : List Char} (h : cs.head? ≠ some '\n') :
    read ('\r' :: cs) = lineBreak .cr :: read cs := by
  rw [read]
  rintro rest rfl
  exact h rfl

theorem read_other {c : Char} (cs : List Char) (hcr : c ≠ '\r') (hlf : c ≠ '\n') :
    read (c :: cs) = other c :: read cs := by
  rw [read]
  · intro rest hc _
    exact hcr hc
  · exact hcr
  · exact hlf

/-- Nothing is lost and nothing is moved. -/
theorem flatMap_chars_read (cs : List Char) : (read cs).flatMap chars = cs := by
  fun_induction read cs with
  | case1 rest ih => simp [chars, LineEnding.chars, ih]
  | case2 rest _ ih => simp [chars, LineEnding.chars, ih]
  | case3 rest ih => simp [chars, LineEnding.chars, ih]
  | case4 c rest _ _ _ ih => simp [chars, ih]
  | case5 => rfl

private theorem head?_of_read {cs : List Char} (h : (read cs).head? = some (lineBreak .lf)) :
    cs.head? = some '\n' := by
  obtain ⟨ts, hts⟩ := List.head?_eq_some_iff.mp h
  rw [← flatMap_chars_read cs, hts]
  rfl

private theorem longest_nil : Longest [] := ⟨by simp, by simp⟩

private theorem longest_cons {t : Token} {ts : List Token} :
    Longest (t :: ts) ↔ (∀ c, t = other c → c ≠ '\r' ∧ c ≠ '\n') ∧
      (t = lineBreak .cr → ts.head? ≠ some (lineBreak .lf)) ∧ Longest ts := by
  constructor
  · rintro ⟨hothers, hpairs⟩
    refine ⟨fun c hc => hothers c (hc ▸ List.mem_cons_self), fun ht hhead => ?_,
      fun c hc => hothers c (List.mem_cons_of_mem _ hc), fun before after hts => ?_⟩
    · obtain ⟨after, hafter⟩ := List.head?_eq_some_iff.mp hhead
      exact hpairs [] after (by rw [ht, hafter, List.nil_append])
    · exact hpairs (t :: before) after (by rw [hts, List.cons_append])
  · rintro ⟨hother, hpair, hothers, hpairs⟩
    refine ⟨fun c hc => ?_, fun before after hts => ?_⟩
    · rcases List.mem_cons.mp hc with ht | hc
      · exact hother c ht.symm
      · exact hothers c hc
    · cases before with
      | nil =>
        cases hts
        exact hpair rfl rfl
      | cons _ before =>
        cases hts
        exact hpairs before after rfl

private theorem longest_read (cs : List Char) : Longest (read cs) := by
  fun_induction read cs with
  | case1 rest ih => exact longest_cons.mpr ⟨by simp, by simp, ih⟩
  | case2 rest hlone ih =>
    refine longest_cons.mpr ⟨by simp, fun _ hhead => ?_, ih⟩
    obtain ⟨after, hafter⟩ := List.head?_eq_some_iff.mp (head?_of_read hhead)
    exact hlone after hafter
  | case3 rest ih => exact longest_cons.mpr ⟨by simp, by simp, ih⟩
  | case4 c rest _ hcr hlf ih =>
    refine longest_cons.mpr ⟨fun d hd => ?_, by simp, ih⟩
    cases hd
    exact ⟨hcr, hlf⟩
  | case5 => exact longest_nil

private theorem read_flatMap_chars {ts : List Token} (h : Longest ts) :
    read (ts.flatMap chars) = ts := by
  induction ts with
  | nil => rfl
  | cons t ts ih =>
    obtain ⟨hother, hpair, hrest⟩ := longest_cons.mp h
    rw [List.flatMap_cons]
    cases t with
    | other c =>
      obtain ⟨hcr, hlf⟩ := hother c rfl
      exact (read_other _ hcr hlf).trans (congrArg _ (ih hrest))
    | lineBreak form =>
      cases form with
      | lf => exact congrArg _ (ih hrest)
      | crlf => exact congrArg _ (ih hrest)
      | cr =>
        refine (read_cr ?_).trans (congrArg _ (ih hrest))
        -- what is read back would start with `\n`, but no token that may follow does
        intro hhead
        rw [← flatMap_chars_read (ts.flatMap chars), ih hrest] at hhead
        cases ts with
        | nil => cases hhead
        | cons t ts =>
          cases t with
          | other c => exact ((longest_cons.mp hrest).1 c rfl).2 (Option.some.inj hhead)
          | lineBreak form =>
            cases form with
            | lf => exact hpair rfl rfl
            | cr => cases hhead
            | crlf => cases hhead

/-- Reading is the only way to cut a text at the longest line breaks. -/
theorem read_eq_iff {cs : List Char} {ts : List Token} :
    read cs = ts ↔ ts.flatMap chars = cs ∧ Longest ts := by
  constructor
  · rintro rfl
    exact ⟨flatMap_chars_read cs, longest_read cs⟩
  · rintro ⟨rfl, h⟩
    exact read_flatMap_chars h

end Token

/-! ## One pass -/

private theorem unifyBreaks_eq_read (cs : List Char) :
    unifyBreaks cs = (Token.read cs).flatMap (Token.charsBy .lf) := by
  fun_induction Token.read cs with
  | case1 rest ih => rw [unifyBreaks_pair, ih]; rfl
  | case2 rest hlone ih =>
    rw [unifyBreaks_cons, ih]
    · rfl
    · intro _ hhead
      obtain ⟨after, hafter⟩ := List.head?_eq_some_iff.mp hhead
      exact hlone after hafter
  | case3 rest ih => rw [unifyBreaks_cons (fun h => absurd h (by decide)), ih]; rfl
  | case4 c rest _ hcr _ ih =>
    rw [unifyBreaks_cons (fun h => absurd h hcr), if_neg hcr, ih]
    rfl
  | case5 => rfl

theorem normalizeChars_eq_read (e : LineEnding) (cs : List Char) :
    normalizeChars e cs = (Token.read cs).flatMap (Token.charsBy e) := by
  rw [normalizeChars, unifyBreaks_eq_read, List.flatMap_assoc]
  refine List.flatMap_congr fun t ht => ?_
  cases t with
  | lineBreak form => simp [Token.charsBy, LineEnding.chars]
  | other c => simp [Token.charsBy, ((Token.longest_read cs).others c ht).2]

/-- Normalising reads a text once, in the only way that takes each `\r\n` for one line break, and
writes the chosen line ending for every line break. Of two normalisings the second decides, so one
that is repeated changes nothing. -/
theorem normalizeBreaks_one_pass (s : String) :
    (∀ ts, Token.read s.toList = ts ↔ ts.flatMap Token.chars = s.toList ∧ Token.Longest ts) ∧
      (∀ e, (normalizeBreaks e s).toList = (Token.read s.toList).flatMap (Token.charsBy e)) ∧
      (∀ e e', normalizeBreaks e' (normalizeBreaks e s) = normalizeBreaks e' s) ∧
      ∀ e, normalizeBreaks e (normalizeBreaks e s) = normalizeBreaks e s := by
  refine ⟨fun ts => Token.read_eq_iff, fun e => ?_,
    fun e e' => normalizeBreaks_normalizeBreaks e e' s,
    fun e => normalizeBreaks_normalizeBreaks e e s⟩
  rw [normalizeBreaks, String.toList_ofList, normalizeChars_eq_read]

/-- Neighbouring `\r` and `\n` in every order, of which only one is a pair. -/
example : Token.read ['\r', '\r', '\n', '\n', 'a', '\r'] =
    [.lineBreak .cr, .lineBreak .crlf, .lineBreak .lf, .other 'a', .lineBreak .cr] := rfl

end HubBindings.Text
