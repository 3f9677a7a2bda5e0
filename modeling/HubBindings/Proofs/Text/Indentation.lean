import HubBindings.Text.Layout
import Mathlib.Data.List.Nodup

/-!
Where the indentation of a layout comes from.

* `Event` is one thing that happens to a writer, and `trace` lists what steps make happen, with the
  guards by their numbers;
* `live`: the guards that were issued and not dropped. However the steps are nested and whichever
  guards they drop, every guard is issued once and dropped at most once (`Orderly`), so that the
  level of the writer is the number of live guards (`Orderly.level_replay`). They are the guards
  that steps can still drop and those of the blocks around (`Accounts`);
* `indentedText` is the layout without a writer: the lines of a trace, each with the indentation in
  front of its first text that is not blank (`replay_text`).
-/

namespace HubBindings.Text

/-! ## Events -/

/-- One thing that happens to a writer. -/
inductive Event where
  | text (s : String)
  | newline
  | issue (guard : Nat)
  | drop (guard : Nat)
  deriving DecidableEq, Repr

/-- The writer after an event. -/
def Event.apply (w : Writer) : Event → Writer
  | .text s => w.write s
  | .newline => w.breakLine
  | .issue _ => w.indent
  | .drop _ => w.dedent

/-- The writer after events in order. -/
def replay (w : Writer) (es : List Event) : Writer := es.foldl Event.apply w

@[simp] theorem replay_nil (w : Writer) : replay w [] = w := rfl

private theorem replay_append (w : Writer) (es es' : List Event) :
    replay w (es ++ es') = replay (replay w es) es' := List.foldl_append

private theorem replay_concat (w : Writer) (es : List Event) (e : Event) :
    replay w (es ++ [e]) = e.apply (replay w es) := replay_append w es [e]

private theorem level_replay_drop (w : Writer) (es : List Event) (guard : Nat) :
    (replay w (es ++ [.drop guard])).level = (replay w es).level - 1 := by
  rw [replay_concat]
  rfl

mutual

/-- What a step makes happen, and the guards after it. -/
def Step.events : Step → Guards → List Event × Guards
  | .write s, k => ([.text s], k)
  | .line s, k => ([.text s, .newline], k)
  | .blank, k => ([.newline], k)
  | .indent, k => ([.issue k.issued], k.hold)
  | .dedent, k =>
    match k.held with
    | [] => ([], k)
    | guard :: _ => ([.drop guard], k.drop guard)
  | .drop guard, k => if guard ∈ k.held then ([.drop guard], k.drop guard) else ([], k)
  | .block header body, k =>
    let inner := Step.eventsAll body k.keep
    ([.text (header ++ " \x7b"), .newline, .issue k.issued] ++ inner.1
      ++ [.drop k.issued, .text "\x7d", .newline], inner.2)

/-- What steps make happen, and the guards after them. -/
def Step.eventsAll : List Step → Guards → List Event × Guards
  | [], k => ([], k)
  | s :: rest, k =>
    let first := s.events k
    let others := Step.eventsAll rest first.2
    (first.1 ++ others.1, others.2)

end

/-- What steps make happen from the start. -/
def trace (steps : List Step) : List Event := (Step.eventsAll steps {}).1

/-- The session after events that leave the given guards. -/
def Session.after (x : Session) (q : List Event × Guards) : Session := ⟨replay x.writer q.1, q.2⟩

theorem Session.drop_of_mem {x : Session} {guard : Nat} (h : guard ∈ x.guards.held) :
    x.drop guard = x.after ([.drop guard], x.guards.drop guard) := by
  rw [Session.drop, if_pos h]
  rfl

mutual

/-- A step does to the writer what its events do. -/
theorem Step.run_eq_after : (s : Step) → (x : Session) → s.run x = x.after (s.events x.guards)
  | .write _, _ => by
    rw [Step.run, Step.events]
    rfl
  | .line _, _ => by
    rw [Step.run, Step.events]
    rfl
  | .blank, _ => by
    rw [Step.run, Step.events]
    rfl
  | .indent, _ => by
    rw [Step.run, Step.events]
    rfl
  | .dedent, x => by
    rw [Step.run, Step.events]
    cases hheld : x.guards.held with
    | nil => rfl
    | cons guard rest => exact Session.drop_of_mem (hheld ▸ List.mem_cons_self)
  | .drop guard, x => by
    rw [Step.run, Step.events]
    by_cases hheld : guard ∈ x.guards.held
    · rw [if_pos hheld, Session.drop_of_mem hheld]
    · rw [if_neg hheld, Session.drop, if_neg hheld]
      rfl
  | .block header body, x => by
    rw [Step.run, Step.events, Step.runAll_eq_after body]
    rw [Session.after, Session.after, Session.closeBlock, replay_append, replay_append]
    rfl

/-- Steps do to the writer what their events do. -/
theorem Step.runAll_eq_after : (steps : List Step) → (x : Session) →
    Step.runAll steps x = x.after (Step.eventsAll steps x.guards)
  | [], _ => by
    rw [Step.runAll, Step.eventsAll]
    rfl
  | s :: rest, x => by
    rw [Step.runAll, Step.eventsAll, Step.runAll_eq_after rest, Step.run_eq_after s]
    simp only [Session.after, replay_append]

end

/-! ## Live guards -/

/-- The guard that an event issues. -/
def Event.issued? : Event → Option Nat
  | .issue guard => some guard
  | _ => none

/-- The guards that were issued and not dropped. -/
def live (past : List Event) : List Nat :=
  (past.filterMap Event.issued?).filter fun guard => .drop guard ∉ past

variable {past : List Event} {guard : Nat}

private theorem mem_live : guard ∈ live past ↔ .issue guard ∈ past ∧ .drop guard ∉ past := by
  have hissued : guard ∈ past.filterMap Event.issued? ↔ .issue guard ∈ past := by
    rw [List.mem_filterMap]
    constructor
    · rintro ⟨e, he, hguard⟩
      cases e <;> cases hguard
      exact he
    · exact fun h => ⟨_, h, rfl⟩
  rw [live, List.mem_filter, hissued, decide_eq_true_eq]

@[simp] theorem live_text (past : List Event) (s : String) :
    live (past ++ [.text s]) = live past := by
  simp [live, Event.issued?]

@[simp] theorem live_newline (past : List Event) : live (past ++ [.newline]) = live past := by
  simp [live, Event.issued?]

private theorem live_issue (h : .drop guard ∉ past) :
    live (past ++ [.issue guard]) = live past ++ [guard] := by
  simp [live, Event.issued?, h]

private theorem live_drop (h : (live past).Nodup) :
    live (past ++ [.drop guard]) = (live past).erase guard := by
  have hissued : (past ++ [Event.drop guard]).filterMap Event.issued? =
      past.filterMap Event.issued? := by
    simp [Event.issued?]
  rw [h.erase_eq_filter, live, live, hissued, List.filter_filter]
  refine List.filter_congr fun other _ => ?_
  simp [bne, beq_eq_decide, Bool.and_comm]

/-- Whether an event may follow others: a guard is issued once, and dropped while it is live. -/
def Event.Fits (past : List Event) : Event → Prop
  | .issue guard => .issue guard ∉ past ∧ .drop guard ∉ past
  | .drop guard => guard ∈ live past
  | _ => True

/-- Events of which each may follow those before it. -/
inductive Orderly : List Event → Prop
  | nil : Orderly []
  | concat {past : List Event} {e : Event} : Orderly past → e.Fits past → Orderly (past ++ [e])

namespace Orderly

theorem earlier {es : List Event} (h : Orderly es) (hpast : past <+: es) : Orderly past := by
  induction h with
  | nil => exact List.prefix_nil.mp hpast ▸ .nil
  | concat h hfits ih =>
    rcases List.prefix_concat_iff.mp hpast with rfl | hpast
    · exact .concat h hfits
    · exact ih hpast

private theorem fits {e : Event} (h : Orderly (past ++ [e])) : e.Fits past := by
  generalize hes : past ++ [e] = es at h
  cases h with
  | nil => simp at hes
  | concat _ hfits =>
    obtain ⟨rfl, hlast⟩ := List.append_inj' hes rfl
    cases hlast
    exact hfits

private theorem nodup_live (h : Orderly past) : (live past).Nodup := by
  induction h with
  | nil => exact List.nodup_nil
  | @concat past e _ hfits ih =>
    cases e with
    | text s => rwa [live_text]
    | newline => rwa [live_newline]
    | issue guard =>
      have hnew : guard ∉ live past := fun hmem => hfits.1 (mem_live.mp hmem).1
      rw [live_issue hfits.2]
      exact (List.perm_append_singleton _ _).nodup_iff.mpr (List.nodup_cons.mpr ⟨hnew, ih⟩)
    | drop guard =>
      rw [live_drop ih]
      exact ih.erase guard

/-- The level of a writer goes up and down with the number of live guards. -/
theorem level_replay (h : Orderly past) (w : Writer) :
    (replay w past).level = w.level + (live past).length := by
  induction h with
  | nil => rfl
  | @concat past e hpast hfits ih =>
    cases e with
    | text s =>
      rw [replay_concat, live_text, ← ih, Event.apply, Writer.write]
      split <;> rfl
    | newline =>
      rw [replay_concat, live_newline, ← ih]
      rfl
    | issue guard =>
      rw [replay_concat, live_issue hfits.2, List.length_append, ← Nat.add_assoc, ← ih]
      rfl
    | drop guard =>
      have hpos : 0 < (live past).length := List.length_pos_of_mem hfits
      rw [level_replay_drop, ih, live_drop hpast.nodup_live, List.length_erase_of_mem hfits]
      omega

end Orderly

/-! ## Steps account for the live guards -/

/-- After orderly events the live guards are those that the blocks around keep and those that steps
can drop, and the numbers of all guards so far are used up. -/
structure Accounts (past : List Event) (kept : List Nat) (k : Guards) : Prop where
  orderly : Orderly past
  used : ∀ guard, .issue guard ∈ past ∨ .drop guard ∈ past → guard < k.issued
  live : (kept ++ k.held).Perm (live past)

namespace Accounts

variable {kept : List Nat} {k : Guards}

theorem start : Accounts [] [] {} := ⟨.nil, by simp, .refl _⟩

theorem text (h : Accounts past kept k) (s : String) : Accounts (past ++ [.text s]) kept k :=
  ⟨.concat h.orderly trivial, by simpa using h.used, by simpa using h.live⟩

private theorem newline (h : Accounts past kept k) : Accounts (past ++ [.newline]) kept k :=
  ⟨.concat h.orderly trivial, by simpa using h.used, by simpa using h.live⟩

/-- A new guard, whoever has it. -/
theorem issue (h : Accounts past kept k) {kept' : List Nat} {k' : Guards}
    (hissued : k'.issued = k.issued + 1)
    (hlive : (kept' ++ k'.held).Perm (kept ++ k.held ++ [k.issued])) :
    Accounts (past ++ [.issue k.issued]) kept' k' := by
  have hissue : .issue k.issued ∉ past := fun hmem => Nat.lt_irrefl _ (h.used _ (.inl hmem))
  have hdrop : .drop k.issued ∉ past := fun hmem => Nat.lt_irrefl _ (h.used _ (.inr hmem))
  refine ⟨.concat h.orderly ⟨hissue, hdrop⟩, fun guard hguard => ?_, ?_⟩
  · rw [hissued]
    simp only [List.mem_append, List.mem_singleton, Event.issue.injEq, reduceCtorEq,
      or_false] at hguard
    rcases hguard with (hguard | rfl) | hguard
    · exact Nat.lt_succ_of_lt (h.used guard (.inl hguard))
    · exact Nat.lt_succ_self _
    · exact Nat.lt_succ_of_lt (h.used guard (.inr hguard))
  · rw [live_issue hdrop]
    exact hlive.trans (h.live.append_right _)

theorem hold (h : Accounts past kept k) : Accounts (past ++ [.issue k.issued]) kept k.hold := by
  refine h.issue rfl ?_
  rw [List.append_assoc]
  exact (List.perm_append_singleton _ _).symm.append_left kept

theorem keep (h : Accounts past kept k) :
    Accounts (past ++ [.issue k.issued]) (k.issued :: kept) k.keep :=
  h.issue rfl (List.perm_append_singleton _ _).symm

/-- A guard less, whoever had it. -/
theorem release (h : Accounts past kept k) {guard : Nat} (hmem : guard ∈ kept ++ k.held)
    {kept' : List Nat} {k' : Guards} (hissued : k'.issued = k.issued)
    (hlive : kept' ++ k'.held = (kept ++ k.held).erase guard) :
    Accounts (past ++ [.drop guard]) kept' k' := by
  have hguard : guard ∈ Text.live past := h.live.mem_iff.mp hmem
  refine ⟨.concat h.orderly hguard, fun other hother => ?_, ?_⟩
  · rw [hissued]
    simp only [List.mem_append, List.mem_singleton, Event.drop.injEq, reduceCtorEq,
      or_false] at hother
    rcases hother with hother | hother | rfl
    · exact h.used other (.inl hother)
    · exact h.used other (.inr hother)
    · exact h.used other (.inl (mem_live.mp hguard).1)
  · rw [live_drop h.orderly.nodup_live, hlive]
    exact h.live.erase guard

theorem drop (h : Accounts past kept k) {guard : Nat} (hheld : guard ∈ k.held) :
    Accounts (past ++ [.drop guard]) kept (k.drop guard) := by
  refine h.release (List.mem_append_right _ hheld) rfl ?_
  have hnodup : (kept ++ k.held).Nodup := h.live.nodup_iff.mpr h.orderly.nodup_live
  have hkept : guard ∉ kept := fun hmem => (List.nodup_append.mp hnodup).2.2 _ hmem _ hheld rfl
  exact (List.erase_append_right _ hkept).symm

private theorem leave {guard : Nat} (h : Accounts past (guard :: kept) k) :
    Accounts (past ++ [.drop guard]) kept k :=
  h.release List.mem_cons_self rfl (List.erase_cons_head ..).symm

end Accounts

mutual

/-- One step keeps account of the live guards, whatever blocks it stands in. -/
theorem Step.events_accounts : (s : Step) → ∀ {past : List Event} {kept : List Nat} {k : Guards},
    Accounts past kept k → Accounts (past ++ (s.events k).1) kept (s.events k).2
  | .write s, _, _, _, h => by
    rw [Step.events]
    exact h.text s
  | .line s, _, _, _, h => by
    rw [Step.events]
    simpa using (h.text s).newline
  | .blank, _, _, _, h => by
    rw [Step.events]
    exact h.newline
  | .indent, _, _, _, h => by
    rw [Step.events]
    exact h.hold
  | .dedent, past, kept, k, h => by
    rw [Step.events]
    cases hheld : k.held with
    | nil => simpa using h
    | cons guard rest => exact h.drop (hheld ▸ List.mem_cons_self)
  | .drop guard, past, kept, k, h => by
    rw [Step.events]
    by_cases hheld : guard ∈ k.held
    · rw [if_pos hheld]
      exact h.drop hheld
    · rw [if_neg hheld]
      simpa using h
  | .block header body, past, kept, k, h => by
    rw [Step.events]
    -- the guard of the block is live all through the body, since no step can drop it
    have hopen := ((h.text (header ++ " \x7b")).newline).keep
    have hclose := ((Step.eventsAll_accounts body hopen).leave.text "\x7d").newline
    simpa using hclose

/-- Steps keep account of the live guards. -/
theorem Step.eventsAll_accounts : (steps : List Step) →
    ∀ {past : List Event} {kept : List Nat} {k : Guards}, Accounts past kept k →
      Accounts (past ++ (Step.eventsAll steps k).1) kept (Step.eventsAll steps k).2
  | [], _, _, _, h => by
    rw [Step.eventsAll]
    simpa using h
  | s :: rest, _, _, _, h => by
    rw [Step.eventsAll]
    simpa using Step.eventsAll_accounts rest (s.events_accounts h)

end

private theorem orderly_trace (steps : List Step) : Orderly (trace steps) :=
  (Step.eventsAll_accounts steps .start).orderly

/-! ## Sessions on the way -/

/-- The sessions that steps pass through, each with the number of blocks that it is inside of. -/
inductive Passes : List Step → Session → Nat → Session → Prop
  | here {steps : List Step} {x : Session} : Passes steps x 0 x
  | next {s : Step} {rest : List Step} {x y : Session} {depth : Nat} :
      Passes rest (s.run x) depth y → Passes (s :: rest) x depth y
  | inside {header : String} {body rest : List Step} {x y : Session} {depth : Nat} :
      Passes body (x.openBlock header) depth y → Passes (.block header body :: rest) x (depth + 1) y

/-- Every session on the way is the one after some of the events, and the blocks that it is inside
of keep one guard each. -/
theorem Passes.exists_accounts {steps : List Step} {x y : Session} {depth : Nat}
    (h : Passes steps x depth y) {past : List Event} {kept : List Nat}
    (hx : Accounts past kept x.guards) :
    ∃ more inner, more <+: (Step.eventsAll steps x.guards).1 ∧ y.writer = replay x.writer more ∧
      inner.length = depth ∧ Accounts (past ++ more) (inner ++ kept) y.guards := by
  induction h generalizing past kept with
  | here => exact ⟨[], [], List.nil_prefix, rfl, rfl, by simpa using hx⟩
  | @next s rest x y depth _ ih =>
    rw [Step.run_eq_after] at ih
    obtain ⟨more, inner, hmore, hy, hdepth, haccounts⟩ := ih (s.events_accounts hx)
    refine ⟨(s.events x.guards).1 ++ more, inner, ?_, ?_, hdepth, ?_⟩
    · rw [Step.eventsAll]
      exact (List.prefix_append_right_inj _).mpr hmore
    · rw [hy, replay_append]
      rfl
    · rwa [← List.append_assoc]
  | @inside header body rest x y depth _ ih =>
    have hopen := ((hx.text (header ++ " \x7b")).newline).keep
    obtain ⟨more, inner, hmore, hy, hdepth, haccounts⟩ := ih hopen
    refine ⟨[.text (header ++ " \x7b"), .newline, .issue x.guards.issued] ++ more,
      inner ++ [x.guards.issued], ?_, ?_, ?_, ?_⟩
    · rw [Step.eventsAll, Step.events, List.append_assoc, List.append_assoc]
      exact (List.prefix_append_right_inj _).mpr (hmore.trans (List.prefix_append _ _))
    · rw [hy, replay_append]
      rfl
    · rw [List.length_append, hdepth, List.length_singleton]
    · simpa using haccounts

/-! ## The layout without a writer -/

/-- The lines that events write: the stretches between newlines, as the texts in them, each with the
number of guards that are live where it is written. Before the events there were those in `past`. -/
def linesAfter (past : List Event) : List Event → List (List (String × Nat))
  | [] => [[]]
  | .text s :: rest =>
    (linesAfter (past ++ [.text s]) rest).modifyHead ((s, (live past).length) :: ·)
  | .newline :: rest => [] :: linesAfter (past ++ [.newline]) rest
  | .issue guard :: rest => linesAfter (past ++ [.issue guard]) rest
  | .drop guard :: rest => linesAfter (past ++ [.drop guard]) rest

/-- The texts of a line one after the other. -/
def plainLine (line : List (String × Nat)) : String := String.join (line.map Prod.fst)

/-- The texts of a line one after the other, with a copy of `unit` for each live guard in front of
the first text that is not blank. -/
def indentedLine (unit : String) : List (String × Nat) → String
  | [] => ""
  | (s, count) :: rest =>
    if isBlank s then s ++ indentedLine unit rest
    else String.join (List.replicate count unit) ++ s ++ plainLine rest

/-- The text that events write. -/
def indentedText (unit : String) (es : List Event) : String :=
  "\n".intercalate ((linesAfter [] es).map (indentedLine unit))

/-- The lines as texts, of which the first goes on where a writer stands. -/
def continued (w : Writer) : List (List (String × Nat)) → List String
  | [] => []
  | first :: others =>
    (if w.atLineStart then indentedLine w.unit first else plainLine first)
      :: others.map (indentedLine w.unit)

private theorem continued_fresh {w : Writer} (h : w.atLineStart = true)
    (lines : List (List (String × Nat))) :
    continued w lines = lines.map (indentedLine w.unit) := by
  cases lines with
  | nil => rfl
  | cons first others => rw [continued, if_pos h, List.map_cons]

private theorem exists_linesAfter (past es : List Event) :
    ∃ first others, linesAfter past es = first :: others := by
  induction es generalizing past with
  | nil => exact ⟨[], [], rfl⟩
  | cons e es ih =>
    cases e with
    | text s =>
      obtain ⟨first, others, h⟩ := ih (past ++ [.text s])
      exact ⟨_, others, by rw [linesAfter, h]; rfl⟩
    | newline => exact ⟨_, _, rfl⟩
    | issue guard => exact ih _
    | drop guard => exact ih _

/-- What is written at the head of a line comes before everything else. -/
theorem intercalate_write (w : Writer) (s : String) (lines : List (List (String × Nat)))
    (hne : ∃ first others, lines = first :: others) :
    (w.write s).text ++ "\n".intercalate (continued (w.write s) lines) =
      w.text ++ "\n".intercalate (continued w (lines.modifyHead ((s, w.level) :: ·))) := by
  obtain ⟨first, others, rfl⟩ := hne
  have hplain : plainLine ((s, w.level) :: first) = s ++ plainLine first := String.join_cons
  rw [List.modifyHead_cons, continued, continued, Writer.write]
  cases hstart : w.atLineStart with
  | false =>
    simp only [Bool.false_and, Bool.false_eq_true, ↓reduceIte, hplain]
    rw [String.intercalate_cons_append, String.append_assoc]
  | true =>
    cases hblank : isBlank s with
    | true =>
      simp only [Bool.not_true, Bool.and_false, Bool.false_eq_true, ↓reduceIte, indentedLine,
        hblank]
      rw [String.intercalate_cons_append, String.append_assoc]
    | false =>
      have hindent : w.indentation = String.join (List.replicate w.level w.unit) := rfl
      simp only [Bool.not_false, Bool.and_true, Bool.false_eq_true, ↓reduceIte, indentedLine,
        hblank, hindent]
      rw [String.intercalate_cons_append]
      simp only [String.append_assoc]

/-- As long as the level of a writer is the number of live guards, it writes the indented lines. -/
theorem replay_text (es : List Event) {past : List Event} {w : Writer}
    (h : ∀ es', es' <+: es → (replay w es').level = (live (past ++ es')).length) :
    (replay w es).text = w.text ++ "\n".intercalate (continued w (linesAfter past es)) := by
  induction es generalizing past w with
  | nil => simp [linesAfter, continued, indentedLine, plainLine]
  | cons e es ih =>
    have hlevel : w.level = (live past).length := by simpa using h [] List.nil_prefix
    have hrest : ∀ es', es' <+: es →
        (replay (e.apply w) es').level = (live (past ++ [e] ++ es')).length := by
      intro es' hes'
      rw [List.append_assoc]
      exact h (e :: es') ((List.prefix_cons_inj e).mpr hes')
    have hstep : replay w (e :: es) = replay (e.apply w) es := rfl
    obtain ⟨first, others, hlines⟩ := exists_linesAfter (past ++ [e]) es
    rw [hstep, ih hrest]
    cases e with
    | text s =>
      rw [linesAfter, ← hlevel]
      exact intercalate_write w s _ ⟨first, others, hlines⟩
    | newline =>
      have hfirst : (if w.atLineStart then indentedLine w.unit [] else plainLine []) = "" := by
        split <;> rfl
      rw [linesAfter, hlines, continued, continued, hfirst, List.map_cons,
        String.intercalate_cons_cons]
      simp [Event.apply, Writer.breakLine, String.append_assoc]
    | issue guard => rfl
    | drop guard => rfl

/-- After orderly events a new writer holds the text that the events write. -/
theorem Orderly.text_replay {es : List Event} (h : Orderly es) (unit : String) :
    (replay { unit := unit } es).text = indentedText unit es := by
  have hlevel : ∀ past, past <+: es →
      (replay { unit := unit } past).level = (live past).length := by
    intro past hpast
    simpa using (h.earlier hpast).level_replay { unit := unit }
  have htext : (replay { unit := unit } es).text =
      "" ++ "\n".intercalate (continued { unit := unit } (linesAfter [] es)) :=
    replay_text es hlevel
  rw [htext, continued_fresh rfl, String.empty_append]
  rfl

/-- Whatever steps are carried out and however they are nested: no guard is issued twice, and none
is dropped that is not live; on the way, inside of blocks too, the level of the writer is the number
of guards that are held and of blocks around; at every moment it is the number of live guards, and
the text is indented by them; a drop always lowers the level; and the layout is the text of all
lines. -/
theorem layout_follows_guards (unit : String) (steps : List Step) :
    Orderly (trace steps) ∧
    (∀ depth x, Passes steps (.start unit) depth x →
      x.writer.level = x.guards.held.length + depth ∧
        ∃ past, past <+: trace steps ∧ x.writer = replay { unit := unit } past) ∧
    (∀ past, past <+: trace steps →
      (replay { unit := unit } past).level = (live past).length ∧
        (replay { unit := unit } past).text = indentedText unit past) ∧
    (∀ past guard, past ++ [.drop guard] <+: trace steps →
      (replay { unit := unit } (past ++ [.drop guard])).level + 1 =
        (replay { unit := unit } past).level) ∧
    layout unit steps = indentedText unit (trace steps) := by
  have horderly : ∀ past, past <+: trace steps → Orderly past :=
    fun past hpast => (orderly_trace steps).earlier hpast
  refine ⟨orderly_trace steps, fun depth x hx => ?_, fun past hpast => ?_,
    fun past guard hdrop => ?_, ?_⟩
  · obtain ⟨past, inner, hpast, hwriter, hdepth, haccounts⟩ := hx.exists_accounts .start
    refine ⟨?_, past, hpast, hwriter⟩
    have hlive := haccounts.live.length_eq
    rw [List.append_nil, List.length_append, hdepth, List.nil_append] at hlive
    have hlevel : x.writer.level = 0 + (live past).length :=
      hwriter ▸ (horderly past hpast).level_replay _
    omega
  · have hlevel := (horderly past hpast).level_replay { unit := unit }
    exact ⟨by simpa using hlevel, (horderly past hpast).text_replay unit⟩
  · have hpast : past <+: trace steps := (List.prefix_append _ _).trans hdrop
    have hlive : guard ∈ live past := (horderly _ hdrop).fits
    have hpos : 0 < (live past).length := List.length_pos_of_mem hlive
    rw [level_replay_drop, (horderly past hpast).level_replay]
    omega
  · rw [layout, Step.runAll_eq_after]
    exact (orderly_trace steps).text_replay unit

/-- A block in which an outer guard is dropped and one is issued that outlives the block. -/
def staggered : List Step :=
  [.indent, .block "f" [.indent, .drop 0, .write " ", .line "x"], .line "y", .drop 2, .line "z"]

/-- The events of `staggered` until its first drop. -/
def staggeredPast : List Event :=
  [.issue 0, .text "f \x7b", .newline, .issue 1, .issue 2]

/-- The session of `staggered` after this drop. -/
def staggeredSession : Session :=
  Step.runAll [.indent, .drop 0] ((Step.indent.run (.start "  ")).openBlock "f")

theorem staggered_follows_guards :
    Passes staggered (.start "  ") 1 staggeredSession ∧ staggeredSession.guards.held = [2] ∧
    staggeredSession.writer.level = staggeredSession.guards.held.length + 1 ∧
    staggeredPast ++ [.drop 0] <+: trace staggered ∧ live staggeredPast = [0, 1, 2] ∧
    (replay { unit := "  " } staggeredPast).level = (live staggeredPast).length ∧
    (replay { unit := "  " } (staggeredPast ++ [.drop 0])).level + 1 =
      (replay { unit := "  " } staggeredPast).level ∧
    layout "  " staggered = indentedText "  " (trace staggered) ∧
    indentedText "  " (trace staggered) = "  f \x7b\n     x\n  \x7d\n  y\nz\n" := by
  have hdrop : staggeredPast ++ [.drop 0] <+: trace staggered := by decide +kernel
  have hpasses : Passes staggered (.start "  ") 1 staggeredSession :=
    .next (.inside (.next (.next .here)))
  obtain ⟨-, hway, hmoment, hlower, htext⟩ := layout_follows_guards "  " staggered
  have hpast : staggeredPast <+: trace staggered := (List.prefix_append _ _).trans hdrop
  exact ⟨hpasses, by decide +kernel, (hway _ _ hpasses).1, hdrop, by decide +kernel,
    (hmoment _ hpast).1, hlower _ _ hdrop, htext, by decide +kernel⟩

end HubBindings.Text
