import NanoKube.Session
import NanoKube.Utf8

/-!
# Streaming through a byte-level tokenizer

A byte-level tokenizer maps every token to some bytes, and decodes the bytes of all
tokens together.  `stream` only remembers how many characters it has sent.  A character
whose bytes are not all there yet decodes to one U+FFFD, so it does count as a
character: it is sent, and the real one is never sent in its place.

## Main definitions

* `byteDecode` — `decode` of a byte-level tokenizer.
* `CutFree` — no decode happens in the middle of a character.

## Main results

* `streamed_iff` — the streamed text is the text `generate` returns, exactly when no
  decode happens in the middle of a character that the rest of the output completes.
-/

namespace NanoKube

open Utf8 (CutsChar settled replacement)

/-- Every token stands for some bytes; all of them together are read as UTF-8. -/
def byteDecode (bytesOf : Token → List ℕ) (ids : List Token) : Text :=
  Utf8.decode (ids.flatMap bytesOf)

variable {ρ : Type*} {R : ModelRunner ρ} {bytesOf : Token → List ℕ} {s : SeqId}
  {x x' : Session ρ} {l : SessionAct} {final : List Token}

/-- If the turn of the generator decodes, the output so far does not end inside the bytes of a
character, other than U+FFFD, that the rest of the final output completes. -/
def CutFree (bytesOf : Token → List ℕ) (s : SeqId) (final : List Token) (x : Session ρ) :
    SessionAct → Prop
  | .read => (Consumer.streaming x.reader).decodes (x.seq s) = true →
      ¬ CutsChar ((x.seq s).outputIds.flatMap bytesOf)
        ((final.drop (x.seq s).outputIds.length).flatMap bytesOf)
  | .act _ => True

instance (x : Session ρ) : ∀ l, Decidable (CutFree bytesOf s final x l)
  | .read => by unfold CutFree; infer_instance
  | .act _ => isTrue trivial

/-- The text held is a beginning of the final text, as far as the output is one of the final
output; and it is settled but for a U+FFFD at its end. -/
structure OnCourse (bytesOf : Token → List ℕ) (s : SeqId) (final : List Token) (x : Session ρ) :
    Prop where
  inv : SessionInv (byteDecode bytesOf) s x
  tail : Tail replacement x.reader.text (settled ((x.seq s).outputIds.flatMap bytesOf))
  beginning : (x.seq s).outputIds <+: final → x.reader.text <+: byteDecode bytesOf final

/-- The text held has a U+FFFD where the final text has another character. -/
structure OffCourse (bytesOf : Token → List ℕ) (s : SeqId) (final : List Token) (x : Session ρ) :
    Prop where
  inv : SessionInv (byteDecode bytesOf) s x
  arrived : s ∈ x.world.arrived
  wrong : (x.seq s).outputIds <+: final → ∃ (k : ℕ) (c : Char), c ≠ replacement ∧
    x.reader.text[k]? = some replacement ∧ (byteDecode bytesOf final)[k]? = some c

/-- A turn that decodes, in terms of the text held. -/
theorem text_of_decodes (hx : SessionInv (byteDecode bytesOf) s x)
    (h : x.step R (byteDecode bytesOf) s .read = some x') :
    (x'.seq s).outputIds = (x.seq s).outputIds ∧
      (((Consumer.streaming x.reader).decodes (x.seq s) = true ∧
          x'.reader.text = catchUp x.reader.text (byteDecode bytesOf (x.seq s).outputIds)) ∨
        ((Consumer.streaming x.reader).decodes (x.seq s) = false ∧
          x'.reader.text = x.reader.text)) := by
  obtain ⟨-, hworld, hopen, hnext, hitem⟩ := hx.read_cases h
  refine ⟨by rw [Session.seq, Session.seq, hworld], ?_⟩
  rcases hitem with ⟨t, hitem⟩ | hitem
  · exact Or.inl ⟨by simp [Consumer.decodes, hopen, hitem], (next_token hnext hitem hx.sent).2.2.1⟩
  · exact Or.inr ⟨by simp [Consumer.decodes, hitem], (next_sentinel hnext hitem).2.1⟩

theorem OnCourse.init (final : List Token) (m t : ℤ) (r : ρ) :
    OnCourse bytesOf s final (Session.init m t r) where
  inv := SessionInv.init m t r
  tail := Tail.nil _ _
  beginning := by intro _; exact List.nil_prefix

/-- Whatever the loop does, the text held stays as good as it was. -/
theorem OnCourse.step_act (hx : OnCourse bytesOf s final x) {a : Act}
    (hinv : SessionInv (byteDecode bytesOf) s x')
    (h : x.step R (byteDecode bytesOf) s (.act a) = some x') : OnCourse bytesOf s final x' := by
  obtain ⟨-, hreader, -⟩ := Session.act_cases h
  rcases hx.inv.outputIds_prefix h with hnew | hout
  · -- nothing has been read yet
    have hnil : x'.reader.text = [] := by
      rw [hreader, hx.inv.fresh hnew]
      rfl
    refine ⟨hinv, ?_, ?_⟩
    · rw [hnil]
      exact Tail.nil _ _
    · intro _
      rw [hnil]
      exact List.nil_prefix
  · obtain ⟨more, hmore⟩ := hout
    refine ⟨hinv, ?_, ?_⟩
    · rw [hreader, ← hmore, List.flatMap_append]
      exact hx.tail.grow (Utf8.settled_prefix _ _)
    · intro hpre
      rw [hreader]
      exact hx.beginning ((List.prefix_append ..).trans (hmore ▸ hpre))

/-- The text of an output is settled but for a U+FFFD at its end. -/
theorem byteDecode_eq (bytesOf : Token → List ℕ) (ids : List Token) :
    ∃ P, (P = [] ∨ P = [replacement]) ∧
      byteDecode bytesOf ids = settled (ids.flatMap bytesOf) ++ P :=
  ⟨_, Utf8.flush_cases _, rfl⟩

/-- **A decode that cuts no character** keeps the text held a beginning of the final one. -/
theorem OnCourse.step_read (hx : OnCourse bytesOf s final x)
    (hcut : CutFree bytesOf s final x .read)
    (h : x.step R (byteDecode bytesOf) s .read = some x') : OnCourse bytesOf s final x' := by
  have hinv := hx.inv.step_read h
  obtain ⟨hout, ⟨hdec, htext⟩ | ⟨-, htext⟩⟩ := text_of_decodes hx.inv h
  · refine ⟨hinv, ?_, ?_⟩
    · rw [hout, htext]
      obtain ⟨P, hP, heq⟩ := byteDecode_eq bytesOf (x.seq s).outputIds
      rw [heq]
      exact hx.tail.catchUp hP
    · rw [hout, htext]
      intro hpre
      obtain ⟨rest, rfl⟩ := hpre
      apply catchUp_prefix (hx.beginning (List.prefix_append ..))
      have hno := hcut hdec
      rw [List.drop_left] at hno
      rw [byteDecode, byteDecode, List.flatMap_append]
      exact (Utf8.decode_prefix_iff _ _).mpr hno
  · refine ⟨hinv, ?_, ?_⟩
    · rw [hout, htext]
      exact hx.tail
    · rw [hout, htext]
      exact hx.beginning

/-- **A decode that cuts a character** sends a U+FFFD for good. -/
theorem OnCourse.offCourse (hx : OnCourse bytesOf s final x)
    (hcut : ¬ CutFree bytesOf s final x .read)
    (h : x.step R (byteDecode bytesOf) s .read = some x') : OffCourse bytesOf s final x' := by
  have hinv := hx.inv.step_read h
  obtain ⟨hs, hworld, -⟩ := hx.inv.read_cases h
  simp only [CutFree, Classical.not_imp, Classical.not_not] at hcut
  obtain ⟨hdec, hcut⟩ := hcut
  obtain ⟨hout, ⟨-, htext⟩ | ⟨hno, -⟩⟩ := text_of_decodes hx.inv h
  · refine ⟨hinv, hworld ▸ hs, ?_⟩
    rw [hout, htext]
    rintro ⟨rest, rfl⟩
    rw [List.drop_left] at hcut
    obtain ⟨hshort, c, hc, hlong⟩ := hcut.shows
    refine ⟨(settled ((x.seq s).outputIds.flatMap bytesOf)).length, c, hc, ?_, ?_⟩
    · rw [byteDecode, hshort]
      exact hx.tail.marked
    · rw [byteDecode, List.flatMap_append]
      exact hlong
  · rw [hdec] at hno
    cases hno

/-- What was sent stays sent. -/
theorem OffCourse.step (hx : OffCourse bytesOf s final x)
    (h : x.step R (byteDecode bytesOf) s l = some x') :
    x'.Lost ∨ OffCourse bytesOf s final x' := by
  rcases hx.inv.step h with hlost | hinv
  · exact Or.inl hlost
  · apply Or.inr
    cases l with
    | act a =>
      obtain ⟨hw, hreader, -⟩ := Session.act_cases h
      rcases hx.inv.outputIds_prefix h with hnew | hout
      · exact absurd hx.arrived hnew
      · refine ⟨hinv, arrived_subset_of_step hw hx.arrived, ?_⟩
        rw [hreader]
        exact fun hpre => hx.wrong (hout.trans hpre)
    | read =>
      obtain ⟨hs, hworld, -⟩ := hx.inv.read_cases h
      obtain ⟨hout, htext⟩ := text_of_decodes hx.inv h
      refine ⟨hinv, hworld ▸ hs, ?_⟩
      intro hpre
      rw [hout] at hpre
      obtain ⟨k, c, hc, hheld, hfinal⟩ := hx.wrong hpre
      refine ⟨k, c, hc, ?_, hfinal⟩
      rcases htext with ⟨-, htext⟩ | ⟨-, htext⟩
      · rw [htext]
        exact getElem?_catchUp hheld
      · rwa [htext]

/-! ### The whole text -/

/-- A stream that is over and on its course has all of the text. -/
theorem OnCourse.text_eq (hx : OnCourse bytesOf s (x.seq s).outputIds x)
    (hclosed : x.reader.closed = true) :
    x.reader.text = byteDecode bytesOf (x.seq s).outputIds := by
  have hpre := hx.beginning (List.prefix_refl _)
  by_cases hne : (x.seq s).outputIds = []
  · have hnil : byteDecode bytesOf (x.seq s).outputIds = [] := by rw [hne]; rfl
    rw [hnil] at hpre ⊢
    exact List.prefix_nil.mp hpre
  · exact hpre.eq_of_length_le (hx.inv.caught (Or.inl hclosed) hne)

theorem OffCourse.text_ne (hx : OffCourse bytesOf s (x.seq s).outputIds x) :
    x.reader.text ≠ byteDecode bytesOf (x.seq s).outputIds := by
  intro heq
  obtain ⟨k, c, hc, hheld, hfinal⟩ := hx.wrong (List.prefix_refl _)
  rw [heq, hfinal] at hheld
  exact hc (Option.some.inj hheld)

/-- **Streamed and buffered text agree, exactly when no decode cuts a character.**  Once a
stream is over, `generate` on the same sequence returns the text of its output.  The chunks
of the stream add up to that text if and only if no turn of the stream decoded an output that
ends inside the bytes of a character, other than U+FFFD, that the rest of the final output
completes. -/
theorem streamed_iff {m t : ℤ} {r : ρ} {acts : List SessionAct}
    (h : run (Session.step R (byteDecode bytesOf) s) (Session.init m t r) acts = some x)
    (hclosed : x.reader.closed = true) :
    ∃ completion, Consumer.generate (byteDecode bytesOf) (x.seq s) = some (.returned completion) ∧
      completion.text = byteDecode bytesOf (x.seq s).outputIds ∧
      (x.reader.text = completion.text ↔
        Along (Session.step R (byteDecode bytesOf) s) (CutFree bytesOf s (x.seq s).outputIds)
          (Session.init m t r) acts) := by
  have hlost : ¬ x.Lost := by
    rintro ⟨-, hopen⟩
    rw [hclosed] at hopen
    cases hopen
  have hcases := run_good_or_bad (CutFree bytesOf s (x.seq s).outputIds)
    (fun u => u.Lost ∨ OnCourse bytesOf s (x.seq s).outputIds u)
    (fun u => u.Lost ∨ OffCourse bytesOf s (x.seq s).outputIds u) ?_ ?_ ?_
    (Or.inr (OnCourse.init _ m t r)) h
  · have hinv : SessionInv (byteDecode bytesOf) s x := by
      rcases hcases with ⟨hgood, -⟩ | ⟨hbad, -⟩
      · exact (hgood.resolve_left hlost).inv
      · exact (hbad.resolve_left hlost).inv
    refine ⟨_, generate_returns (hinv.channel_of_closed hclosed) (hinv.closed hclosed), rfl, ?_⟩
    rcases hcases with ⟨hgood, hcut⟩ | ⟨hbad, hcut⟩
    · exact iff_of_true ((hgood.resolve_left hlost).text_eq hclosed) hcut
    · exact iff_of_false (hbad.resolve_left hlost).text_ne hcut
  · rintro u l u' (hu | hu) hcut hstep
    · exact Or.inl (hu.step hstep)
    · cases l with
      | act a =>
        rcases hu.inv.step hstep with hgone | hinv
        · exact Or.inl hgone
        · exact Or.inr (hu.step_act hinv hstep)
      | read => exact Or.inr (hu.step_read hcut hstep)
  · rintro u l u' (hu | hu) hcut hstep
    · exact Or.inl (hu.step hstep)
    · cases l with
      | act a => exact absurd trivial hcut
      | read => exact Or.inr (hu.offCourse hcut hstep)
  · rintro u l u' (hu | hu) hstep
    · exact Or.inl (hu.step hstep)
    · exact hu.step hstep

/-- The three bytes of one character, in two tokens. -/
def halves (token : Token) : List ℕ :=
  if token = 1 then [0xE5, 0xA5] else if token = 2 then [0xBD] else []

/-- Both tokens are there when the stream takes its first item. -/
theorem streamed_iff_both_tokens_first :
    let acts : List SessionAct := [.act (.add 0 ⟨[104], 2, 0, none, ∅⟩), .act (.loop .iterate),
      .act (.loop (.tickEnd [some 1])), .act (.loop .iterate), .act (.loop (.tickEnd [some 2])),
      .read, .read, .read]
    (runD (Session.step mockRunner (byteDecode halves) 0) (Session.init 8 8192 ())
      acts).reader.text = ['好'] := by
  intro acts
  have h := run_eq_runD (show (run (Session.step mockRunner (byteDecode halves) 0)
    (Session.init 8 8192 ()) acts).isSome = true by decide)
  obtain ⟨completion, -, htext, hiff⟩ := streamed_iff h (by decide)
  rw [hiff.mpr (by decide), htext]
  decide

/-- The stream takes the first token before there is a second: it sends U+FFFD and then nothing,
where `generate` returns the character. -/
theorem stream_sends_half_a_character :
    let acts : List SessionAct := [.act (.add 0 ⟨[104], 2, 0, none, ∅⟩), .act (.loop .iterate),
      .act (.loop (.tickEnd [some 1])), .read, .act (.loop .iterate),
      .act (.loop (.tickEnd [some 2])), .read, .read]
    ∃ x, run (Session.step mockRunner (byteDecode halves) 0) (Session.init 8 8192 ()) acts
        = some x ∧
      x.reader.chunks = [⟨[replacement], none⟩, ⟨[], some (some .length)⟩] ∧
      x.reader.closed = true ∧ (x.seq 0).outputIds = [1, 2] ∧
      Consumer.generate (byteDecode halves) (x.seq 0)
        = some (.returned ⟨['好'], 1, 2, some .length⟩) := by
  intro acts
  have h := run_eq_runD (show (run (Session.step mockRunner (byteDecode halves) 0)
    (Session.init 8 8192 ()) acts).isSome = true by decide)
  exact ⟨_, h, by decide, by decide, by decide, by decide⟩

end NanoKube
