import Mathlib.Data.List.Basic

/-!
# Server-sent events

A body of server-sent events, as a client takes it apart.  A line ends at a line feed, a
carriage return, or the two together; a blank line ends an event, and the data lines of an
event make up its data.  What is not finished at the end of the body is dropped.

## Main definitions

* `linesFrom` — the lines of a body that are complete.
* `events` — the data of the events of a body.
* `frame` — an event with one data line.

## Main results

* `events_frames` — **events whose data has no line break come back one for one**.
* `events_prefix` — a body that is cut short has a beginning of the events.
* `events_cut` — cut short anywhere, it lacks the last one.
-/

namespace Sse

/-- The lines that come to their end, `line` being what there is of the first. -/
def linesFrom (line : List Char) : List Char → List (List Char)
  | [] => []
  | '\r' :: '\n' :: rest => line :: linesFrom [] rest
  | '\r' :: rest => line :: linesFrom [] rest
  | '\n' :: rest => line :: linesFrom [] rest
  | c :: rest => linesFrom (line ++ [c]) rest

/-- The value of a data line.  One space after the colon is not part of it. -/
def dataValue : List Char → Option (List Char)
  | 'd' :: 'a' :: 't' :: 'a' :: ':' :: ' ' :: value => some value
  | 'd' :: 'a' :: 't' :: 'a' :: ':' :: value => some value
  | ['d', 'a', 't', 'a'] => some []
  | _ => none

/-- The data of the events that come to their end, `values` being the data lines that the
first has so far.  An event without any is not one. -/
def dispatch (values : List (List Char)) : List (List Char) → List (List Char)
  | [] => []
  | [] :: lines =>
    if values = [] then dispatch [] lines
    else ['\n'].intercalate values :: dispatch [] lines
  | line :: lines => dispatch (values ++ (dataValue line).toList) lines

/-- The data of the events of a body. -/
def events (body : List Char) : List (List Char) := dispatch [] (linesFrom [] body)

/-- An event with one data line. -/
def frame (data : List Char) : List Char :=
  ['d', 'a', 't', 'a', ':', ' '] ++ data ++ ['\n', '\n']

/-- There is no line break in the text. -/
def OneLine (s : List Char) : Prop := '\n' ∉ s ∧ '\r' ∉ s

theorem oneLine_cons {c : Char} {s : List Char} (h : OneLine (c :: s)) :
    c ≠ '\n' ∧ c ≠ '\r' ∧ OneLine s :=
  ⟨fun heq => h.1 (heq ▸ List.mem_cons_self), fun heq => h.2 (heq ▸ List.mem_cons_self),
    fun hs => h.1 (List.mem_cons_of_mem _ hs), fun hs => h.2 (List.mem_cons_of_mem _ hs)⟩

theorem linesFrom_cons {c : Char} (hn : c ≠ '\n') (hr : c ≠ '\r') (line rest : List Char) :
    linesFrom line (c :: rest) = linesFrom (line ++ [c]) rest := by
  rw [linesFrom.eq_def]
  split
  · next heq => cases heq
  · next heq => exact absurd (List.cons_eq_cons.mp heq).1 hr
  · next heq => exact absurd (List.cons_eq_cons.mp heq).1 hr
  · next heq => exact absurd (List.cons_eq_cons.mp heq).1 hn
  · next heq =>
    obtain ⟨rfl, rfl⟩ := List.cons_eq_cons.mp heq
    rfl

/-- A text with no line break goes on the line that is open. -/
theorem linesFrom_append {s : List Char} (h : OneLine s) (line rest : List Char) :
    linesFrom line (s ++ rest) = linesFrom (line ++ s) rest := by
  induction s generalizing line with
  | nil => rw [List.nil_append, List.append_nil]
  | cons c s ih =>
    obtain ⟨hn, hr, hs⟩ := oneLine_cons h
    rw [List.cons_append, linesFrom_cons hn hr, ih hs, List.append_assoc, List.singleton_append]

/-- An event is its data line and a blank one. -/
theorem linesFrom_frame {data : List Char} (h : OneLine data) (rest : List Char) :
    linesFrom [] (frame data ++ rest)
      = (['d', 'a', 't', 'a', ':', ' '] ++ data) :: [] :: linesFrom [] rest := by
  have hline : OneLine (['d', 'a', 't', 'a', ':', ' '] ++ data) := by
    refine ⟨fun hmem => ?_, fun hmem => ?_⟩
    · rcases List.mem_append.mp hmem with hmem | hmem
      · exact absurd hmem (by decide)
      · exact h.1 hmem
    · rcases List.mem_append.mp hmem with hmem | hmem
      · exact absurd hmem (by decide)
      · exact h.2 hmem
  rw [frame, List.append_assoc, linesFrom_append hline]
  rfl

/-- **One event off the front of a body.** -/
theorem events_frame {data : List Char} (h : OneLine data) (rest : List Char) :
    events (frame data ++ rest) = data :: events rest := by
  rw [events, linesFrom_frame h]
  simp [dispatch, dataValue, events, List.intercalate]

/-- **Events whose data has no line break come back one for one.** -/
theorem events_frames {datas : List (List Char)} (h : ∀ data ∈ datas, OneLine data) :
    events (datas.flatMap frame) = datas := by
  induction datas with
  | nil => rfl
  | cons data datas ih =>
    rw [List.flatMap_cons, events_frame (h data List.mem_cons_self),
      ih fun d hd => h d (List.mem_cons_of_mem _ hd)]

/-! ### A body that is cut short -/

/-- A carriage return ends a line, whatever follows. -/
theorem linesFrom_return (line rest : List Char) :
    ∃ lines, linesFrom line ('\r' :: rest) = line :: lines := by
  cases rest with
  | nil => exact ⟨_, rfl⟩
  | cons c rest =>
    by_cases hc : c = '\n'
    · subst hc
      exact ⟨_, rfl⟩
    · refine ⟨_, linesFrom.eq_3 line (c :: rest) ?_⟩
      intro tail heq
      exact hc (List.cons_eq_cons.mp heq).1

/-- Lines that were complete stay as they are when more of the body comes. -/
theorem linesFrom_prefix (line cut rest : List Char) :
    linesFrom line cut <+: linesFrom line (cut ++ rest) := by
  induction line, cut using linesFrom.induct with
  | case1 line => exact List.nil_prefix
  | case2 line cut ih =>
    rw [List.cons_append, List.cons_append, linesFrom, linesFrom]
    exact (List.prefix_cons_inj line).mpr ih
  | case3 line cut hfeed ih =>
    rw [linesFrom.eq_3 line cut hfeed, List.cons_append]
    cases cut with
    | nil =>
      -- the line has ended, whether or not a line feed follows
      obtain ⟨lines, hlines⟩ := linesFrom_return line rest
      rw [List.nil_append, hlines]
      exact (List.prefix_cons_inj line).mpr List.nil_prefix
    | cons c cut =>
      have hne : ∀ tail, c :: cut ++ rest = '\n' :: tail → False := by
        intro tail heq
        exact hfeed cut (by rw [(List.cons_eq_cons.mp heq).1])
      rw [linesFrom.eq_3 line (c :: cut ++ rest) hne]
      exact (List.prefix_cons_inj line).mpr ih
  | case4 line cut ih =>
    rw [List.cons_append, linesFrom, linesFrom]
    exact (List.prefix_cons_inj line).mpr ih
  | case5 line c cut hpair hreturn hfeed ih =>
    rw [List.cons_append, linesFrom_cons hfeed hreturn, linesFrom_cons hfeed hreturn]
    exact ih

/-- So do the events made of them. -/
theorem dispatch_prefix (values lines more : List (List Char)) :
    dispatch values lines <+: dispatch values (lines ++ more) := by
  induction values, lines using dispatch.induct with
  | case1 values => exact List.nil_prefix
  | case2 lines ih =>
    rw [List.cons_append, dispatch, dispatch, if_pos rfl, if_pos rfl]
    exact ih
  | case3 values lines hne ih =>
    rw [List.cons_append, dispatch, dispatch, if_neg hne, if_neg hne]
    exact (List.prefix_cons_inj _).mpr ih
  | case4 values line lines hline ih =>
    rw [List.cons_append, dispatch.eq_3 values line lines hline,
      dispatch.eq_3 values line (lines ++ more) hline]
    exact ih

/-- **A body that is cut short** has a beginning of the events. -/
theorem events_prefix {cut body : List Char} (h : cut <+: body) : events cut <+: events body := by
  obtain ⟨rest, rfl⟩ := h
  obtain ⟨more, hmore⟩ := linesFrom_prefix [] cut rest
  rw [events, events, ← hmore]
  exact dispatch_prefix [] _ more

/-- Whole events in front of anything. -/
theorem events_frames_append {datas : List (List Char)} (h : ∀ data ∈ datas, OneLine data)
    (rest : List Char) : events (datas.flatMap frame ++ rest) = datas ++ events rest := by
  induction datas with
  | nil => rfl
  | cons data datas ih =>
    rw [List.forall_mem_cons] at h
    rw [List.flatMap_cons, List.append_assoc, events_frame h.1, ih h.2]
    rfl

/-- A data line whose blank line is missing is no event. -/
theorem events_open {data : List Char} (h : OneLine data) :
    events (['d', 'a', 't', 'a', ':', ' '] ++ data ++ ['\n']) = [] := by
  have hline : OneLine (['d', 'a', 't', 'a', ':', ' '] ++ data) := by
    constructor <;> intro hmem <;> rcases List.mem_append.mp hmem with hmem | hmem
    · exact absurd hmem (by decide)
    · exact h.1 hmem
    · exact absurd hmem (by decide)
    · exact h.2 hmem
  rw [events, linesFrom_append hline]
  rfl

/-- **Cut short anywhere, a body lacks its last event.** -/
theorem events_cut {datas : List (List Char)} {data cut : List Char}
    (h : ∀ d ∈ datas, OneLine d) (hdata : OneLine data)
    (hcut : cut <+: (datas ++ [data]).flatMap frame) (hne : cut ≠ (datas ++ [data]).flatMap frame) :
    events cut <+: datas := by
  have hbody : (datas ++ [data]).flatMap frame
      = datas.flatMap frame ++ (['d', 'a', 't', 'a', ':', ' '] ++ data ++ ['\n']) ++ ['\n'] := by
    simp [frame]
  rw [hbody] at hcut hne
  rcases List.prefix_concat_iff.mp hcut with heq | hshort
  · exact absurd heq hne
  · have hle := events_prefix hshort
    rwa [events_frames_append h, events_open hdata, List.append_nil] at hle

end Sse
