import HubBindings.Proofs.Sequencing

/-!
Texts with brackets and separators.

* `Nested` is the grammar of texts in which every bracket has its partner, with the separators that
  may stand outside of all brackets;
* `splitOutside` cuts a text at a separator where it stands outside of all brackets. It goes through
  a nested text without a cut (`splitOutside_append`), so that what was joined comes apart again
  (`readList_intercalate`).
-/

namespace HubBindings.Text

/-- A pair of brackets. -/
inductive Bracket where
  | round
  | square
  | curly
  | angle
  deriving DecidableEq, Repr

def Bracket.opener : Bracket → Char
  | round => '('
  | square => '['
  | curly => '\x7b'
  | angle => '<'

def Bracket.closer : Bracket → Char
  | round => ')'
  | square => ']'
  | curly => '\x7d'
  | angle => '>'

def openers : List Char := ['(', '[', '\x7b', '<']

def closers : List Char := [')', ']', '\x7d', '>']

def separators : List Char := [',', '|', ':', ';']

/-- The characters that give a text its structure. -/
def delimiters : List Char := openers ++ closers ++ separators

/-- Texts in which every bracket has its partner. Between brackets every separator may stand, and
outside of them only those that are allowed. -/
inductive Nested : (allowed : List Char) → List Char → Prop
  | nil {allowed : List Char} : Nested allowed []
  | char {allowed : List Char} {c : Char} {s : List Char} :
      c ∉ openers → c ∉ closers → (c ∈ separators → c ∈ allowed) → Nested allowed s →
        Nested allowed (c :: s)
  | group {allowed inner s : List Char} (b : Bracket) :
      Nested separators inner → Nested allowed s →
        Nested allowed (b.opener :: (inner ++ b.closer :: s))

/-- Every bracket has its partner, and no separator stands outside of all brackets. -/
def SelfContained (s : String) : Prop := Nested [] s.toList

/-- A text without structure. -/
def Plain (s : String) : Prop := ∀ c ∈ s.toList, c ∉ delimiters

instance (s : String) : Decidable (Plain s) :=
  decidable_of_iff (s.toList.all (· ∉ delimiters) = true) (by simp [Plain])

section Nested

variable {allowed : List Char} {s t : List Char}

theorem Nested.append (hs : Nested allowed s) (ht : Nested allowed t) :
    Nested allowed (s ++ t) := by
  induction hs with
  | nil => exact ht
  | char ho hc ha _ ih => exact .char ho hc ha (ih ht)
  | @group allowed inner s b hinner _ _ ih =>
    have hsplit : b.opener :: (inner ++ b.closer :: s) ++ t =
        b.opener :: (inner ++ b.closer :: (s ++ t)) := by simp
    rw [hsplit]
    exact .group b hinner (ih ht)

theorem Nested.mono {allowed' : List Char} (h : Nested allowed s) (hsub : allowed ⊆ allowed') :
    Nested allowed' s := by
  induction h with
  | nil => exact .nil
  | char ho hc ha _ ih => exact .char ho hc (fun hmem => hsub (ha hmem)) (ih hsub)
  | group b hinner _ _ ih => exact .group b hinner (ih hsub)

/-- What is self-contained may stand anywhere. -/
theorem Nested.of_selfContained {text : String} (h : SelfContained text) :
    Nested allowed text.toList :=
  Nested.mono h (List.nil_subset _)

/-- A text without brackets, in which only allowed separators stand. -/
theorem Nested.of_chars
    (h : s.all (fun c => c ∉ openers ∧ c ∉ closers ∧ (c ∈ separators → c ∈ allowed)) = true) :
    Nested allowed s := by
  induction s with
  | nil => exact .nil
  | cons c s ih =>
    rw [List.all_cons, Bool.and_eq_true, decide_eq_true_eq] at h
    obtain ⟨⟨ho, hc, ha⟩, hrest⟩ := h
    exact .char ho hc ha (ih hrest)

theorem Nested.of_plain {text : String} (h : Plain text) : Nested allowed text.toList := by
  refine .of_chars (List.all_eq_true.mpr fun c hc => decide_eq_true ?_)
  have hnot := h c hc
  simp only [delimiters, List.mem_append, not_or] at hnot
  exact ⟨hnot.1.1, hnot.1.2, fun hmem => absurd hmem hnot.2⟩

theorem Nested.enclosed (b : Bracket) (h : Nested separators s) :
    Nested allowed (b.opener :: (s ++ [b.closer])) := .group b h .nil

end Nested

/-! ## Cuts outside of all brackets -/

/-- The depth after a character. -/
def depthAfter (depth : Nat) (c : Char) : Nat :=
  if c ∈ openers then depth + 1 else if c ∈ closers then depth - 1 else depth

/-- Cuts a text at a separator wherever it stands at depth 0. -/
def splitOutside (separator : Char) : (depth : Nat) → List Char → List (List Char)
  | _, [] => [[]]
  | depth, c :: cs =>
    if c = separator ∧ depth = 0 then [] :: splitOutside separator 0 cs
    else (splitOutside separator (depthAfter depth c) cs).modifyHead (c :: ·)

section Split

variable {separator : Char} (hseparator : separator ∈ separators)
include hseparator

/-- A nested text is gone through without a cut, if the separator may not stand outside of its
brackets or the text stands inside of some. -/
theorem splitOutside_append {allowed s : List Char} (h : Nested allowed s) {depth : Nat}
    (hdepth : separator ∈ allowed → 0 < depth) (rest : List Char) :
    splitOutside separator depth (s ++ rest) =
      (splitOutside separator depth rest).modifyHead (s ++ ·) := by
  induction h generalizing depth rest with
  | nil => cases h : splitOutside separator depth rest <;> simp [h]
  | @char allowed c s ho hc ha _ ih =>
    have hcut : ¬ (c = separator ∧ depth = 0) := by
      rintro ⟨rfl, rfl⟩
      exact absurd (hdepth (ha hseparator)) (Nat.lt_irrefl 0)
    have hstay : depthAfter depth c = depth := by rw [depthAfter, if_neg ho, if_neg hc]
    rw [List.cons_append, splitOutside, if_neg hcut, hstay, ih hdepth, List.modifyHead_modifyHead]
    rfl
  | @group allowed inner s b _ _ ihinner ih =>
    -- brackets are no separators, and they lead one level down and back
    have hopen : ∀ depth, ¬ (b.opener = separator ∧ depth = 0) := by
      rintro _ ⟨rfl, _⟩
      cases b <;> exact absurd hseparator (by decide)
    have hclose : ∀ depth, ¬ (b.closer = separator ∧ depth = 0) := by
      rintro _ ⟨rfl, _⟩
      cases b <;> exact absurd hseparator (by decide)
    have hdown : depthAfter depth b.opener = depth + 1 := by cases b <;> rfl
    have hup : depthAfter (depth + 1) b.closer = depth := by cases b <;> rfl
    have hsplit : b.opener :: (inner ++ b.closer :: s) ++ rest =
        b.opener :: (inner ++ b.closer :: (s ++ rest)) := by simp
    rw [hsplit, splitOutside, if_neg (hopen depth), hdown, ihinner fun _ => Nat.succ_pos depth,
      splitOutside, if_neg (hclose (depth + 1)), hup, ih hdepth]
    simp only [List.modifyHead_modifyHead]
    congr 1
    funext tail
    simp

end Split

private theorem splitOutside_intercalate {allowed : List Char} (hcomma : ',' ∉ allowed)
    {t : List Char}
    {ts : List (List Char)} (h : ∀ u ∈ t :: ts, Nested allowed u) :
    splitOutside ',' 0 ([',', ' '].intercalate (t :: ts)) = t :: ts.map (' ' :: ·) := by
  have hmember : ',' ∈ separators := by decide
  induction ts generalizing t with
  | nil =>
    have hcut : splitOutside ',' 0 (t ++ []) = (splitOutside ',' 0 []).modifyHead (t ++ ·) :=
      splitOutside_append hmember (h t List.mem_cons_self) (fun hmem => absurd hmem hcomma) []
    simpa [splitOutside] using hcut
  | cons u us ih =>
    obtain ⟨ht, hrest⟩ := List.forall_mem_cons.mp h
    have hjoin : [',', ' '].intercalate (t :: u :: us) =
        t ++ ',' :: ' ' :: [',', ' '].intercalate (u :: us) := by
      simp [List.intercalate_cons_cons]
    have hblank : depthAfter 0 ' ' = 0 := rfl
    rw [hjoin, splitOutside_append hmember ht fun hmem => absurd hmem hcomma, splitOutside,
      if_pos ⟨rfl, rfl⟩, splitOutside, if_neg (by decide), hblank, ih hrest]
    simp

/-! ## Reading back -/

/-- The items of a text with a comma and a blank between them. -/
def readList (s : String) : List String :=
  match splitOutside ',' 0 s.toList with
  | [] => []
  | first :: others => String.ofList first :: others.map fun item => String.ofList (item.drop 1)

theorem readList_intercalate {allowed : List Char} (hcomma : ',' ∉ allowed)
    {ts : List String}
    (hne : ts ≠ []) (h : ∀ t ∈ ts, Nested allowed t.toList) :
    readList (", ".intercalate ts) = ts := by
  obtain ⟨t, ts, rfl⟩ := List.exists_cons_of_ne_nil hne
  have hall : ∀ u ∈ t.toList :: ts.map String.toList, Nested allowed u := by
    rw [← List.map_cons, List.forall_mem_map]
    exact h
  have hchars : (", ".intercalate (t :: ts)).toList =
      [',', ' '].intercalate (t.toList :: ts.map String.toList) := by
    rw [String.toList_intercalate]
    rfl
  rw [readList, hchars, splitOutside_intercalate hcomma hall]
  simp [Function.comp_def]

/-- The items between a pair of brackets around a whole text. -/
def readItems? (b : Bracket) : List Char → Option (List String)
  | [] => none
  | c :: cs =>
    if c = b.opener ∧ cs.getLast? = some b.closer then some (readList (String.ofList cs.dropLast))
    else none

theorem readItems?_enclosed (b : Bracket) {ts : List String} (hne : ts ≠ [])
    (h : ∀ t ∈ ts, SelfContained t) :
    readItems? b (b.opener :: ((", ".intercalate ts).toList ++ [b.closer])) = some ts := by
  have hlist : readList (", ".intercalate ts) = ts := readList_intercalate List.not_mem_nil hne h
  rw [readItems?, if_pos ⟨rfl, List.getLast?_concat⟩, List.dropLast_concat, String.ofList_toList,
    hlist]

/-- A name and the items between angle brackets after it. -/
def readGeneric? (s : String) : Option (String × List String) :=
  (readItems? .angle (s.toList.dropWhile (· != '<'))).map fun items =>
    (String.ofList (s.toList.takeWhile (· != '<')), items)

theorem readGeneric?_eq {name : String} (hname : Plain name) {ts : List String} (hne : ts ≠ [])
    (h : ∀ t ∈ ts, SelfContained t) :
    readGeneric? (name ++ "<" ++ ", ".intercalate ts ++ ">") = some (name, ts) := by
  have hplain : ∀ c ∈ name.toList, (c != '<') = true := by
    intro c hc
    rw [bne_iff_ne]
    rintro rfl
    exact hname _ hc (by decide)
  have hitems : readItems? .angle ('<' :: ((", ".intercalate ts).toList ++ ['>'])) = some ts :=
    readItems?_enclosed .angle hne h
  have hchars : (name ++ "<" ++ ", ".intercalate ts ++ ">").toList =
      name.toList ++ '<' :: ((", ".intercalate ts).toList ++ ['>']) := by
    simp
  rw [readGeneric?, hchars, List.dropWhile_append_of_pos hplain,
    List.takeWhile_append_of_pos hplain, List.dropWhile_cons_of_neg (by decide),
    List.takeWhile_cons_of_neg (by decide), hitems]
  simp

/-- What stands after the last separator outside of all brackets. -/
def lastItem (s : List Char) : List Char :=
  separators.foldl (fun item separator => (splitOutside separator 0 item).getLastD []) s

private theorem lastItem_of_nested {s : List Char} (h : Nested [] s) : lastItem s = s := by
  have hwhole : ∀ c ∈ separators, (splitOutside c 0 s).getLastD [] = s := by
    intro c hc
    have hcut : splitOutside c 0 (s ++ []) = (splitOutside c 0 []).modifyHead (s ++ ·) :=
      splitOutside_append hc h (fun hmem => absurd hmem List.not_mem_nil) []
    rw [List.append_nil] at hcut
    simp [hcut, splitOutside]
  simp only [separators, List.forall_mem_cons] at hwhole
  obtain ⟨hcomma, hbar, hcolon, hsemicolon, _⟩ := hwhole
  simp only [lastItem, separators, List.foldl_cons, List.foldl_nil, hcomma, hbar, hcolon,
    hsemicolon]

/-- The element of an array. A pair of square brackets at the end of a text belongs to the last item
before it, as in a union of types. -/
def readElement? (s : String) : Option String :=
  match s.toList.reverse with
  | ']' :: '[' :: before => some (String.ofList (lastItem before.reverse))
  | _ => none

theorem readElement?_append {s : String} (h : SelfContained s) :
    readElement? (s ++ "[]") = some s := by
  simp [readElement?, lastItem_of_nested h]

example : readElement? "Date | string[]" = some " string" := by decide

/-- A name, a colon, a blank and a text. -/
def named (q : String × String) : String := q.1 ++ ": " ++ q.2

/-- A name and the text after a colon and a blank. -/
def readNamed? (s : String) : Option (String × String) :=
  match s.toList.dropWhile (· != ':') with
  | ':' :: ' ' :: text => some (String.ofList (s.toList.takeWhile (· != ':')), String.ofList text)
  | _ => none

private theorem readNamed?_named {q : String × String} (hname : Plain q.1) :
    readNamed? (named q) = some q := by
  have hplain : ∀ c ∈ q.1.toList, (c != ':') = true := by
    intro c hc
    rw [bne_iff_ne]
    rintro rfl
    exact hname _ hc (by decide)
  have hchars : (named q).toList = q.1.toList ++ ':' :: ' ' :: q.2.toList := by simp [named]
  rw [readNamed?, hchars, List.dropWhile_append_of_pos hplain,
    List.takeWhile_append_of_pos hplain, List.dropWhile_cons_of_neg (by decide),
    List.takeWhile_cons_of_neg (by decide)]
  simp

/-- Names with their texts in a list. An empty text has none of them. -/
def readNamedList? (s : String) : Option (List (String × String)) :=
  if s = "" then some [] else (readList s).mapM readNamed?

theorem readNamedList?_intercalate {qs : List (String × String)}
    (h : ∀ q ∈ qs, Plain q.1 ∧ SelfContained q.2) :
    readNamedList? (", ".intercalate (qs.map named)) = some qs := by
  by_cases hqs : qs = []
  · rw [hqs]
    rfl
  · have hitems : ∀ t ∈ qs.map named, Nested [':'] t.toList := by
      rw [List.forall_mem_map]
      intro q hq
      have hcolon : Nested [':'] ": ".toList := .of_chars (by decide)
      simpa [named] using ((Nested.of_plain (h q hq).1).append hcolon).append
        (Nested.of_selfContained (h q hq).2)
    have hlist : readList (", ".intercalate (qs.map named)) = qs.map named :=
      readList_intercalate (by decide) (by simpa using hqs) hitems
    have hne : ", ".intercalate (qs.map named) ≠ "" := by
      intro hempty
      have hone : readList "" = [""] := rfl
      rw [hempty, hone] at hlist
      obtain ⟨q, _, hq⟩ := List.mem_map.mp (hlist ▸ List.mem_cons_self : "" ∈ qs.map named)
      simp [named] at hq
    rw [readNamedList?, if_neg hne, hlist, Sequencing.mapM_eq_some_iff,
      List.forall₂_map_left_iff]
    exact List.forall₂_same.mpr fun q hq => readNamed?_named (h q hq).1

end HubBindings.Text
