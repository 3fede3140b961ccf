import NanoKube.Server

/-!
# Liveness is checked before it is needed

`completions` refuses with 503 when the loop is dead.  A buffered request is submitted in
the same turn of the event loop as the check.  A streaming response is only iterated
later, and its body submits without looking again.

## Main definitions

* `BodyAtLiveLoop` — no body is first iterated while the loop is dead.

## Main results

* `lateAdds_step` — the one event that can add to a dead loop.
* `adds_live_iff` — every `Scheduler.add` is at a live loop, exactly when no body begins
  at a dead one.
-/

namespace NanoKube

variable {ρ : Type*} {runners : RunnerName → Runner ρ} {v v' : Server ρ} {e : Event}

/-- If the event is the first iteration of a body, the loop is alive. -/
def BodyAtLiveLoop (v : Server ρ) : Event → Prop
  | .beginBody _ _ => v.loopIsDead = false
  | _ => True

instance (v : Server ρ) : ∀ e, Decidable (BodyAtLiveLoop v e)
  | .beginBody _ _ => inferInstanceAs (Decidable (_ = _))
  | .startup | .post _ _ | .loop _ | .oldCancel | .swap | .read _ | .hangup _ => isTrue trivial

theorem submit_lateAdds (v : Server ρ) (seq : SeqId) (body : CompletionRequest) :
    (v.submit runners seq body).log.lateAdds
      = if v.loopIsDead then v.log.lateAdds ++ [seq] else v.log.lateAdds := rfl

/-- **One event adds to a dead loop or none does**: a buffered request is checked and submitted
in one turn, so only a body that begins can come too late. -/
theorem lateAdds_step (h : v.step runners e = some v') :
    (BodyAtLiveLoop v e ∧ v'.log.lateAdds = v.log.lateAdds) ∨
      (¬ BodyAtLiveLoop v e ∧ ∃ seq, v'.log.lateAdds = v.log.lateAdds ++ [seq]) := by
  cases moves_of_step h with
  | @submit seq body hlive hnew =>
    refine Or.inl ⟨trivial, ?_⟩
    rw [submit_lateAdds, hlive]
    rfl
  | @beginBody seq i body hnew hbody =>
    have hsame : ({ v with pending := v.pending.eraseIdx i } : Server ρ).loopIsDead
        = v.loopIsDead := rfl
    rw [submit_lateAdds, hsame]
    cases hdead : v.loopIsDead with
    | false => exact Or.inl ⟨hdead, rfl⟩
    | true =>
      refine Or.inr ⟨?_, seq, rfl⟩
      intro hlive
      have hlive' : v.loopIsDead = false := hlive
      rw [hdead] at hlive'
      cases hlive'
  | loop htask hstep => exact Or.inl ⟨trivial, (logLoop_frame ..).2⟩
  | read hcons hstep =>
    refine Or.inl ⟨trivial, ?_⟩
    dsimp only
    split <;> rfl
  | _ => exact Or.inl ⟨trivial, rfl⟩

/-- **No request is submitted to a dead loop, exactly when no body begins at one.**  In every
interleaving of handlers, bodies, consumers, loop events, deaths of the loop and the swap:
every sequence that was queued was queued at a live loop, if and only if no streaming body
was first iterated while `loop_is_dead()`. -/
theorem adds_live_iff {m t : ℤ} {events : List Event}
    (h : run (Server.step runners) (Server.init m t) events = some v) :
    v.log.lateAdds = [] ↔
      Along (Server.step runners) BodyAtLiveLoop (Server.init m t) events := by
  have key := run_good_or_bad BodyAtLiveLoop (fun v : Server ρ => v.log.lateAdds = [])
    (fun v => v.log.lateAdds ≠ []) ?_ ?_ ?_ rfl h
  · rcases key with ⟨hgood, hal⟩ | ⟨hbad, hal⟩
    · exact iff_of_true hgood hal
    · exact iff_of_false hbad hal
  · intro u e u' hu hlive hstep
    rcases lateAdds_step hstep with ⟨-, hsame⟩ | ⟨hdead, -⟩
    · rw [hsame, hu]
    · exact absurd hlive hdead
  · intro u e u' hu hdead hstep
    rcases lateAdds_step hstep with ⟨hlive, -⟩ | ⟨-, seq, hmore⟩
    · exact absurd hlive hdead
    · simp [hmore]
  · intro u e u' hu hstep
    rcases lateAdds_step hstep with ⟨-, hsame⟩ | ⟨-, seq, hmore⟩
    · rwa [hsame]
    · simp [hmore]

/-- A streaming request whose body begins while the loop is up, and one refused after its death. -/
theorem adds_live_iff_refused :
    let events : List Event := [.startup,
      .post 0 { prompt := ['h'], maxTokens := 2, stream := true }, .beginBody 0 0,
      .loop .iterate, .loop .raise, .post 1 { prompt := ['h'] }]
    (runD (Server.step fun _ => mock) (Server.init 8 8192) events).log.lateAdds = [] := by
  intro events
  have h := run_eq_runD (show
    (run (Server.step fun _ => mock) (Server.init 8 8192) events).isSome = true by decide)
  exact (adds_live_iff h).mpr (by decide)

/-- The loop dies between a streaming handler's return and the first iteration of its body: the
sequence is queued with nobody left to drain it, and its queue stays empty. -/
theorem add_to_dead_loop :
    let events : List Event := [.startup, .post 0 { prompt := ['h'], maxTokens := 2 },
      .loop .iterate, .post 1 { prompt := ['h'], maxTokens := 2, stream := true },
      .loop .raise, .beginBody 1 0]
    ∃ v, run (Server.step fun _ => mock) (Server.init 8 8192) events = some v ∧
      v.loopIsDead = true ∧ v.log.lateAdds = [1] ∧ v.sched.waiting = [1] ∧
      (v.sched.seqs 1).queue = [] := by
  intro events
  have h := run_eq_runD (show
    (run (Server.step fun _ => mock) (Server.init 8 8192) events).isSome = true by decide)
  exact ⟨_, h, by decide, by decide, by decide, by decide⟩

end NanoKube
