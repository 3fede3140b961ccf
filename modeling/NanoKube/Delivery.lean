import NanoKube.Quiescence
import NanoKube.Swap

/-!
# Items on their way

`emit` does not put an item into the queue: it hands `put_nowait` to the event loop of the
sequence, which runs it later.  Between the two, anything may happen: the loop goes on to
its next tick, other handlers run, the client hangs up.

So a consumer sees its queue late.  It wakes up later than it could, and that is all: with
the callbacks hidden, the process is the one whose queues hold every item at once.

## Main definitions

* `Deferred`, `Deferred.step` — the process with its callbacks, in order.
* `Server.emits` — the items an event emits, in order.
* `itemsFor` — the items on their way to one sequence.

## Main results

* `queue_of_step` — an event appends to a queue what it emits.
* `DeferredInv.step` — **what was emitted is what was put and what is on its way**.
* `deferred_same_runs` — the process with callbacks and the one without have the same runs.
* `deferred_blocked` — nobody waits for an item that does not come.
-/

namespace NanoKube

open Scheduler (lookup_eq_some_iff map_fst_zip_sublist)

/-! ### Items by sequence -/

/-- The items for one sequence. -/
def itemsFor (s : SeqId) (items : List (SeqId × Option Token)) : List (Option Token) :=
  items.filterMap fun p => if p.1 = s then some p.2 else none

@[simp] theorem itemsFor_nil (s : SeqId) : itemsFor s [] = [] := rfl

theorem itemsFor_append (s : SeqId) (xs ys : List (SeqId × Option Token)) :
    itemsFor s (xs ++ ys) = itemsFor s xs ++ itemsFor s ys := List.filterMap_append ..

theorem itemsFor_cons (s : SeqId) (p : SeqId × Option Token) (items : List (SeqId × Option Token)) :
    itemsFor s (p :: items) = if p.1 = s then p.2 :: itemsFor s items else itemsFor s items := by
  rw [itemsFor, List.filterMap_cons]
  by_cases hp : p.1 = s
  · rw [if_pos hp, if_pos hp]
    rfl
  · rw [if_neg hp, if_neg hp]
    rfl

theorem itemsFor_eq_nil {s : SeqId} {items : List (SeqId × Option Token)}
    (h : ∀ p ∈ items, p.1 ≠ s) : itemsFor s items = [] := by
  rw [itemsFor, List.filterMap_eq_nil_iff]
  intro p hp
  rw [if_neg (h p hp)]

theorem itemsFor_map (s t : SeqId) (items : List (Option Token)) :
    itemsFor s (items.map fun item => (t, item)) = if t = s then items else [] := by
  split
  · next ht =>
    subst ht
    simp [itemsFor, List.filterMap_map]
  · next ht =>
    apply itemsFor_eq_nil
    simp only [List.mem_map]
    rintro p ⟨item, -, rfl⟩
    exact ht

/-- **Each sequence finds its own items**, if none is listed twice. -/
theorem itemsFor_flatMap {s : SeqId} (f : SeqId → List (Option Token)) {order : List SeqId}
    (hn : order.Nodup) : itemsFor s (order.flatMap fun t => (f t).map fun item => (t, item))
      = if s ∈ order then f s else [] := by
  induction order with
  | nil => rfl
  | cons t order ih =>
    obtain ⟨ht, hn⟩ := List.nodup_cons.mp hn
    rw [List.flatMap_cons, itemsFor_append, itemsFor_map, ih hn]
    by_cases hs : t = s
    · subst hs
      simp [ht]
    · have hne : s ≠ t := Ne.symm hs
      simp [hs, hne]

/-! ### What an event emits -/

variable {ρ : Type*} {runners : RunnerName → Runner ρ} {v v' : Server ρ} {e : Event} {s : SeqId}

namespace Server

/-- The sequences an event may emit items for, in the order of the source: a tick gives its failed
rows up first, a teardown starts with the running ones. -/
def emitters (v : Server ρ) : Event → List SeqId
  | .post seq body => if v.loopIsDead || body.stream then [] else [seq]
  | .beginBody seq _ | .read seq | .hangup seq => [seq]
  | .loop (.tickEnd nextIds) => v.loopTask.elim [] fun t =>
      Scheduler.casualties t.batch nextIds ++ (Scheduler.survivors t.batch nextIds).map Prod.fst
  | .loop .raise | .loop .cancel | .oldCancel => v.sched.running ++ v.sched.waiting
  | .startup | .swap | .loop .iterate | .loop .wake => []

/-- How many items have been emitted for a sequence; none, before it was made. -/
def emitted (v : Server ρ) (s : SeqId) : ℕ :=
  if s ∈ v.arrived then (v.sched.seqs s).queue.length else 0

/-- The items that an event which leads to `v'` emits. -/
def emits (v v' : Server ρ) (e : Event) : List (SeqId × Option Token) :=
  (v.emitters e).flatMap fun s =>
    ((v'.sched.seqs s).queue.drop (v.emitted s)).map fun item => (s, item)

end Server

/-- The rows that failed and the rows that did not are the rows. -/
theorem perm_rows (batch : List SeqId) (nextIds : List (Option Token)) :
    (Scheduler.casualties batch nextIds ++
      (Scheduler.survivors batch nextIds).map Prod.fst).Perm ((batch.zip nextIds).map Prod.fst) := by
  unfold Scheduler.casualties Scheduler.survivors
  induction batch.zip nextIds with
  | nil => rfl
  | cons row rows ih =>
    obtain ⟨s, _ | token⟩ := row
    · simpa using ih.cons s
    · simpa using List.perm_middle.trans (ih.cons s)

/-- No sequence is listed twice. -/
theorem nodup_emitters (hx : Fifo v.api) (e : Event) : (v.emitters e).Nodup := by
  cases e with
  | post seq body =>
    simp only [Server.emitters]
    split
    · exact List.nodup_nil
    · exact List.nodup_singleton _
  | beginBody | read | hangup => exact List.nodup_singleton _
  | loop e =>
    cases e with
    | tickEnd nextIds =>
      unfold Server.emitters
      cases htask : v.loopTask with
      | none => exact List.nodup_nil
      | some t =>
        have hkeys : ((t.batch.zip nextIds).map Prod.fst).Nodup :=
          (map_fst_zip_sublist t.batch nextIds).nodup (fifo_world hx htask).nodup_batch
        exact (perm_rows t.batch nextIds).nodup_iff.mpr hkeys
    | raise | cancel => exact hx.nodup_queues
    | iterate | wake => exact List.nodup_nil
  | oldCancel => exact hx.nodup_queues
  | startup | swap => exact List.nodup_nil

/-- Who is not listed is left alone. -/
theorem seqs_of_not_emitter (hx : Fifo v.api) (h : v.step runners e = some v') (hs : s ∈ v.arrived)
    (hno : s ∉ v.emitters e) : v'.sched.seqs s = v.sched.seqs s := by
  have hhandled := handled_of_step hx h hs
  have hrow : ∀ result, ¬ v.Returns s result e := by
    intro result hrow
    cases e with
    | loop e =>
      cases e with
      | tickEnd nextIds =>
        obtain ⟨t, htask, -, hzip⟩ := hrow
        have hmem : s ∈ (t.batch.zip nextIds).map Prod.fst := List.mem_map_of_mem hzip
        rw [← (perm_rows t.batch nextIds).mem_iff] at hmem
        exact hno (by simpa [Server.emitters, htask] using hmem)
      | _ => cases hrow
    | _ => cases hrow
  generalize v'.sched.seqs s = q at hhandled ⊢
  cases hhandled with
  | same => rfl
  | record token hreturns => exact absurd hreturns (hrow _)
  | rowFailed hreturns => exact absurd hreturns (hrow _)
  | tornDown hdown hmem =>
    cases e with
    | loop e =>
      cases e with
      | raise | cancel => exact absurd hmem hno
      | _ => cases hdown
    | oldCancel => exact absurd hmem hno
    | _ => cases hdown
  | ended | hangup => exact absurd (List.mem_singleton_self s) hno

/-- A sequence that was just made is listed. -/
theorem mem_emitters_of_new (h : v.step runners e = some v') (hnew : s ∉ v.arrived)
    (hs : s ∈ v'.arrived) : s ∈ v.emitters e := by
  cases moves_of_step h with
  | @submit seq body hlive hfresh =>
    have hseq : s = seq := by simpa [Server.submit, hnew] using hs
    -- a streaming request would only have been noted down
    have hbuffered : body.stream = false := by
      by_contra hstream
      rw [Bool.not_eq_false] at hstream
      simp only [Server.step, hlive, hstream, Bool.false_eq_true, if_false, if_true,
        Option.some.injEq] at h
      have harr := congrArg Server.arrived h
      simp [Server.submit] at harr
    simp [Server.emitters, hlive, hbuffered, hseq]
  | @beginBody seq i body hfresh hbody =>
    have hseq : s = seq := by simpa [Server.submit, hnew] using hs
    simp [Server.emitters, hseq]
  | _ => exact absurd hs hnew

/-- **An event appends to a queue what it emits.** -/
theorem queue_of_step (hx : Fifo v.api) (h : v.step runners e = some v') (hs : s ∈ v'.arrived) :
    (v'.sched.seqs s).queue
      = (if s ∈ v.arrived then (v.sched.seqs s).queue else []) ++ itemsFor s (v.emits v' e) := by
  rw [Server.emits, itemsFor_flatMap _ (nodup_emitters hx e), Server.emitted]
  by_cases hold : s ∈ v.arrived
  · rw [if_pos hold, if_pos hold]
    by_cases hmem : s ∈ v.emitters e
    · obtain ⟨items, hitems⟩ := (handled_queue (handled_of_step hx h hold)).1
      rw [if_pos hmem, ← hitems, List.drop_left]
    · rw [if_neg hmem, seqs_of_not_emitter hx h hold hmem, List.append_nil]
  · rw [if_neg hold, if_neg hold, if_pos (mem_emitters_of_new h hold hs), List.drop_zero,
      List.nil_append]

/-! ### The process with its callbacks -/

/-- The process, where `server` has in each queue what was emitted into it; the callbacks that the
event loop has still to run, in order; and what they have put so far. -/
structure Deferred (ρ : Type*) where
  server : Server ρ
  ready : List (SeqId × Option Token)
  queue : SeqId → List (Option Token)

/-- What can happen. -/
inductive DeferredEvent
  | event (e : Event)
  /-- The event loop runs a callback: `put_nowait`. -/
  | put

/-- The events of the process proper. -/
def DeferredEvent.visible : DeferredEvent → Option Event
  | .event e => some e
  | .put => none

namespace Deferred

def init (maxBatchSize maxBatchTokens : ℤ) : Deferred ρ where
  server := Server.init maxBatchSize maxBatchTokens
  ready := []
  queue := fun _ => []

/-- A sequence as its consumer sees it. -/
def seen (x : Deferred ρ) (s : SeqId) : Sequence :=
  { x.server.sched.seqs s with queue := x.queue s }

/-- The event leads to `v'`: what it emits is handed to the event loop, and a sequence that it makes
has an empty queue. -/
def after (x : Deferred ρ) (e : Event) (v' : Server ρ) : Deferred ρ where
  server := v'
  ready := x.ready ++ x.server.emits v' e
  queue := fun s => if s ∈ x.server.arrived then x.queue s else []

/-- The effect of an event.  Only a consumer looks into a queue. -/
def step (runners : RunnerName → Runner ρ) (x : Deferred ρ) : DeferredEvent → Option (Deferred ρ)
  -- the items it sees are those that were put; its output and its verdict are read off the sequence
  | .event (.read s) =>
    (x.server.consumers s).bind fun c =>
      (c.step (runners x.server.engine).decode (x.seen s)).map fun c' =>
        let log := if c.decodes (x.seen s) then
            { x.server.log with
              decoded := x.server.log.decoded ++ [(x.server.engine, x.server.log.makers s)] }
          else x.server.log
        x.after (.read s) { x.server.resume s c' with log := log }
  | .event e => (x.server.step runners e).map (x.after e)
  | .put =>
    match x.ready with
    | [] => none
    -- the callbacks run in the order in which they were handed over
    | (s, item) :: rest =>
      some { x with
        ready := rest
        queue := fun t => if t = s then x.queue t ++ [item] else x.queue t }

end Deferred

/-- **A call that wakes up on what it sees** would do the same if it saw more. -/
theorem Consumer.step_of_append {decode : List Token → Text} {q : Sequence}
    {queue more : List (Option Token)} (hq : q.queue = queue ++ more) {c c' : Consumer}
    (h : c.step decode { q with queue := queue } = some c') :
    c.step decode q = some c' ∧ c.decodes q = c.decodes { q with queue := queue } := by
  have hitem : ∀ {pos : ℕ} {item : Option Token}, queue[pos]? = some item →
      q.queue[pos]? = some item := by
    intro pos item hpos
    rw [hq, List.getElem?_append_left (List.getElem?_eq_some_iff.mp hpos).1, hpos]
  cases c with
  | generating pos =>
    simp only [Consumer.step, Consumer.decodes] at h ⊢
    cases hpos : queue[pos]? with
    | none => simp [hpos] at h
    | some item =>
      rw [hpos] at h
      rw [hitem hpos]
      exact ⟨h, rfl⟩
  | streaming reader =>
    simp only [Consumer.step, Consumer.decodes, StreamReader.next] at h ⊢
    cases hopen : reader.closed with
    | true => simp [hopen] at h
    | false =>
      cases hpos : queue[reader.pos]? with
      | none => simp [hopen, hpos] at h
      | some item =>
        simp only [hopen, hpos] at h
        simp only [hitem hpos]
        exact ⟨h, trivial⟩
  -- a call that is over does not look into the queue
  | returned completion => cases h
  | gone => cases h

/-- What was emitted is what was put and what is on its way, for the sequences there are. -/
structure DeferredInv (x : Deferred ρ) : Prop where
  fifo : Fifo x.server.api
  consumers : ∀ s c, x.server.consumers s = some c → s ∈ x.server.arrived
  ready : ∀ p ∈ x.ready, p.1 ∈ x.server.arrived
  queues : ∀ s ∈ x.server.arrived,
    (x.server.sched.seqs s).queue = x.queue s ++ itemsFor s x.ready

section Refines

variable {x x' : Deferred ρ}

theorem DeferredInv.init (m t : ℤ) : DeferredInv (Deferred.init m t : Deferred ρ) where
  fifo := Fifo.init m t
  consumers := by intro s c h; cases h
  ready := by intro p hp; cases hp
  queues := by intro s hs; cases hs

/-- Items are emitted for sequences there are. -/
theorem mem_arrived_of_emitter (hx : Fifo v.api)
    (hcons : ∀ s c, v.consumers s = some c → s ∈ v.arrived) (h : v.step runners e = some v')
    (hs : s ∈ v.emitters e) : s ∈ v'.arrived := by
  have hdeques : s ∈ v.sched.running ++ v.sched.waiting → s ∈ v.arrived := fun hmem =>
    hx.mem_arrived hmem
  cases moves_of_step h with
  | startup | swap => cases hs
  | refuse hdead => simp [Server.emitters, hdead] at hs
  | respond hlive hstream => simp [Server.emitters, hstream] at hs
  | submit hlive hnew =>
    simp only [Server.emitters] at hs
    split at hs
    · cases hs
    · simp [Server.submit, List.mem_singleton.mp hs]
  | beginBody hnew hbody => simp [Server.submit, List.mem_singleton.mp hs]
  | @loop e t w htask hstep =>
    cases e with
    | tickEnd nextIds =>
      have hbatch := (fifo_world hx htask).batch_sublist.subset
      simp only [Server.emitters, htask, Option.elim_some] at hs
      rw [(perm_rows t.batch nextIds).mem_iff] at hs
      exact hbatch ((map_fst_zip_sublist t.batch nextIds).subset hs)
    | raise | cancel => exact hdeques hs
    | iterate | wake => cases hs
  | oldCancel => exact hdeques hs
  | @read seq c c' hc hstep =>
    obtain rfl := List.mem_singleton.mp hs
    exact hcons _ c hc
  | @hangup seq c hc hlive =>
    obtain rfl := List.mem_singleton.mp hs
    exact hcons _ c hc

/-- An event of the process keeps the law of the queues. -/
theorem DeferredInv.after (hx : DeferredInv x) (h : x.server.step runners e = some v') :
    DeferredInv (x.after e v') where
  fifo := fifo_step hx.fifo h
  consumers := consumers_of_step hx.consumers h
  ready := by
    intro p hp
    rcases List.mem_append.mp hp with hp | hp
    · exact ((log_step h).2.2 p.1 (hx.ready p hp)).1
    · obtain ⟨s, hs, hitem⟩ := List.mem_flatMap.mp hp
      obtain ⟨item, -, rfl⟩ := List.mem_map.mp hitem
      exact mem_arrived_of_emitter hx.fifo hx.consumers h hs
  queues := by
    intro s hs
    have hqueue := queue_of_step hx.fifo h hs
    simp only [Deferred.after]
    rw [hqueue, itemsFor_append]
    by_cases hold : s ∈ x.server.arrived
    · rw [if_pos hold, if_pos hold, hx.queues s hold, List.append_assoc]
    · -- nothing was on its way to a sequence that was not made yet
      have hnone : itemsFor s x.ready = [] :=
        itemsFor_eq_nil fun p hp he => hold (he ▸ hx.ready p hp)
      rw [if_neg hold, if_neg hold, hnone]
      rfl

/-- The oldest callback is the next to run. -/
theorem put_cases (h : x.step runners .put = some x') :
    ∃ s item rest, x.ready = (s, item) :: rest ∧
      x' = { x with
        ready := rest
        queue := fun t => if t = s then x.queue t ++ [item] else x.queue t } := by
  cases hready : x.ready with
  | nil => simp [Deferred.step, hready] at h
  | cons p rest =>
    obtain ⟨s, item⟩ := p
    simp only [Deferred.step, hready, Option.some.injEq] at h
    exact ⟨s, item, rest, rfl, h.symm⟩

/-- **Every step of the process with callbacks is one of the process without**, or none. -/
theorem DeferredInv.refines (hx : DeferredInv x) {a : DeferredEvent}
    (h : x.step runners a = some x') :
    match a.visible with
    | some e => x.server.step runners e = some x'.server ∧ x' = x.after e x'.server
    | none => x'.server = x.server := by
  cases a with
  | put =>
    obtain ⟨s, item, rest, -, rfl⟩ := put_cases h
    rfl
  | event e =>
    show x.server.step runners e = some x'.server ∧ x' = x.after e x'.server
    cases e with
    | read s =>
      simp only [Deferred.step, Option.bind_eq_some_iff, Option.map_eq_some_iff] at h
      obtain ⟨c, hc, c', hstep, rfl⟩ := h
      have hqueue := hx.queues s (hx.consumers s c hc)
      -- the call wakes up on an item that has arrived, and that item stays where it is
      obtain ⟨hfull, hdecodes⟩ := Consumer.step_of_append hqueue hstep
      refine ⟨?_, rfl⟩
      simp only [Server.step, hc, Option.bind_some, hfull, Option.map_some, hdecodes]
      rfl
    | _ =>
      obtain ⟨v', hv', rfl⟩ := Option.map_eq_some_iff.mp h
      exact ⟨hv', rfl⟩

/-- A callback puts what was on its way. -/
theorem DeferredInv.put (hx : DeferredInv x) (h : x.step runners .put = some x') :
    DeferredInv x' := by
  obtain ⟨s, item, rest, hready, rfl⟩ := put_cases h
  refine ⟨hx.fifo, hx.consumers, ?_, ?_⟩
  · intro p hp
    exact hx.ready p (hready ▸ List.mem_cons_of_mem _ hp)
  · intro t ht
    have hqueue := hx.queues t ht
    rw [hready, itemsFor_cons] at hqueue
    dsimp only at hqueue ⊢
    rw [hqueue]
    by_cases hts : t = s
    · rw [if_pos hts, if_pos hts.symm, List.append_assoc, List.singleton_append]
    · rw [if_neg hts, if_neg (Ne.symm hts)]

/-- **What was emitted is what was put and what is on its way**, after every step. -/
theorem DeferredInv.step (hx : DeferredInv x) {a : DeferredEvent}
    (h : x.step runners a = some x') : DeferredInv x' := by
  cases a with
  | put => exact hx.put h
  | event e =>
    obtain ⟨hstep, heq⟩ : x.server.step runners e = some x'.server ∧ x' = x.after e x'.server :=
      hx.refines h
    rw [heq]
    exact hx.after hstep

theorem deferredInv_reachable {m t : ℤ} {as : List DeferredEvent}
    (h : run (Deferred.step runners) (Deferred.init m t) as = some x) : DeferredInv x :=
  run_invariant DeferredInv (fun hx hs => DeferredInv.step hx hs) (DeferredInv.init m t) h

/-! ### With and without callbacks -/

/-- With nothing on its way a consumer sees its whole queue. -/
theorem DeferredInv.seen_eq (hx : DeferredInv x) (hnone : itemsFor s x.ready = [])
    (hs : s ∈ x.server.arrived) : x.seen s = x.server.sched.seqs s := by
  have hqueue := hx.queues s hs
  rw [hnone, List.append_nil] at hqueue
  rw [Deferred.seen, ← hqueue]

/-- With nothing on its way every event of the process can happen. -/
theorem DeferredInv.step_of_server (hx : DeferredInv x) (hready : x.ready = [])
    (h : x.server.step runners e = some v') :
    x.step runners (.event e) = some (x.after e v') := by
  cases e with
  | read s =>
    simp only [Server.step, Option.bind_eq_some_iff, Option.map_eq_some_iff] at h
    obtain ⟨c, hc, c', hstep, rfl⟩ := h
    have hnone : itemsFor s x.ready = [] := by rw [hready, itemsFor_nil]
    have hseen := hx.seen_eq hnone (hx.consumers s c hc)
    simp only [Deferred.step, hc, Option.bind_some, hseen, hstep, Option.map_some]
  | _ => exact Option.map_eq_some_iff.mpr ⟨v', h, rfl⟩

/-- The event loop runs its callbacks. -/
theorem exists_puts (x : Deferred ρ) : ∃ y, run (Deferred.step runners) x
    (List.replicate x.ready.length .put) = some y ∧ y.server = x.server ∧ y.ready = [] := by
  obtain ⟨v, ready, queue⟩ := x
  induction ready generalizing queue with
  | nil => exact ⟨_, rfl, rfl, rfl⟩
  | cons p rest ih =>
    obtain ⟨s, item⟩ := p
    obtain ⟨y, hy, hserver, hready⟩ := ih fun t => if t = s then queue t ++ [item] else queue t
    exact ⟨y, by rw [List.length_cons, List.replicate_succ, run_cons_of_step rfl]; exact hy,
      hserver, hready⟩

/-- A run of the process, with every callback run as soon as it can be. -/
theorem exists_deferred {m t : ℤ} {events : List Event}
    (h : run (Server.step runners) (Server.init m t) events = some v) :
    ∃ as x, as.filterMap DeferredEvent.visible = events ∧
      run (Deferred.step runners) (Deferred.init m t) as = some x ∧ x.server = v ∧
      x.ready = [] := by
  induction events using List.reverseRecOn generalizing v with
  | nil =>
    obtain rfl := Option.some.inj h
    exact ⟨[], _, rfl, rfl, rfl, rfl⟩
  | append_singleton events e ih =>
    rw [run_append, Option.bind_eq_some_iff] at h
    obtain ⟨u, hu, he⟩ := h
    obtain ⟨as, x, hvisible, hx, rfl, hready⟩ := ih hu
    obtain ⟨v', hstep, hlast⟩ := run_cons he
    obtain rfl := Option.some.inj hlast
    have hevent := (deferredInv_reachable hx).step_of_server hready hstep
    -- every callback is run before the next event
    obtain ⟨y, hputs, hserver, hnone⟩ := @exists_puts _ runners (x.after e v')
    refine ⟨as ++ [.event e] ++ List.replicate (x.after e v').ready.length .put, y, ?_, ?_,
      hserver, hnone⟩
    · rw [List.filterMap_append, List.filterMap_append, hvisible, List.filterMap_replicate]
      simp [DeferredEvent.visible]
    · rw [run_append, run_snoc hx hevent, Option.bind_some, hputs]

/-- With its callbacks hidden, a run is one of the process. -/
theorem server_of_deferred {m t : ℤ} {as : List DeferredEvent}
    (h : run (Deferred.step runners) (Deferred.init m t) as = some x) :
    run (Server.step runners) (Server.init m t) (as.filterMap DeferredEvent.visible)
      = some x.server := by
  refine run_filterMap Deferred.server DeferredEvent.visible DeferredInv
    (fun hy hs => hy.step hs) ?_ (DeferredInv.init m t) h
  intro y a y' hy hs
  have hrefines := hy.refines hs
  cases a with
  | put => exact hrefines
  | event e => exact hrefines.1

/-- **The process with callbacks and the one without have the same runs**, once the callbacks are
hidden.  Whatever is on its way, and for however long, no event has another effect than in a
process whose queues hold every item as soon as it is emitted; an item is in its queue or on its
way to it, in order and once.  And each run of that process is one with callbacks, all of which
have been run. -/
theorem deferred_same_runs {m t : ℤ} :
    (∀ as (x : Deferred ρ), run (Deferred.step runners) (Deferred.init m t) as = some x →
      run (Server.step runners) (Server.init m t) (as.filterMap DeferredEvent.visible)
        = some x.server ∧
      ∀ s ∈ x.server.arrived,
        (x.server.sched.seqs s).queue = x.queue s ++ itemsFor s x.ready) ∧
    (∀ events (v : Server ρ), run (Server.step runners) (Server.init m t) events = some v →
      ∃ as x, as.filterMap DeferredEvent.visible = events ∧
        run (Deferred.step runners) (Deferred.init m t) as = some x ∧ x.server = v ∧
        x.ready = []) :=
  ⟨fun _ _ h => ⟨server_of_deferred h, (deferredInv_reachable h).queues⟩,
    fun _ _ h => exists_deferred h⟩

/-- A token and the sentinel are on their way while a second request arrives. -/
theorem deferred_same_runs_two :
    let as : List DeferredEvent := [.event .startup,
      .event (.post 0 { prompt := ['h'], maxTokens := 1 }), .event (.loop .iterate),
      .event (.loop (.tickEnd [some 0])), .put,
      .event (.post 1 { prompt := ['i'], maxTokens := 1 })]
    let x := runD (Deferred.step fun _ => mock) (Deferred.init 8 8192 : Deferred Unit) as
    (x.server.sched.seqs 0).queue = x.queue 0 ++ itemsFor 0 x.ready ∧
      x.queue 0 = [some 0] ∧ itemsFor 0 x.ready = [none] := by
  intro as x
  have h := run_eq_runD (show (run (Deferred.step fun _ => mock)
    (Deferred.init 8 8192 : Deferred Unit) as).isSome = true by decide)
  have harrived : 0 ∈ x.server.arrived := by decide
  exact ⟨(deferred_same_runs.1 as x h).2 0 harrived, by decide, by decide⟩

/-- **Nobody waits for an item that does not come.**  Whatever is on its way: a call that is not over
and cannot move on has an item on its way to it, or waits for a sequence without a verdict, which
is in one of the deques.  So once the callbacks are run, a scheduler without work leaves nobody
hanging. -/
theorem deferred_blocked {m t : ℤ} {as : List DeferredEvent}
    (h : run (Deferred.step runners) (Deferred.init m t) as = some x) {c : Consumer}
    (hc : x.server.consumers s = some c) (hlive : c.live = true)
    (hstuck : x.step runners (.event (.read s)) = none) :
    (∃ p ∈ x.ready, p.1 = s) ∨
      ((x.server.sched.seqs s).isFinished = false ∧
        s ∈ x.server.sched.running ++ x.server.sched.waiting) := by
  have hx := deferredInv_reachable h
  -- what holds of the process whose queues hold every item holds of the one underneath
  have hawake := awakeInv_reachable (server_of_deferred h)
  have hs := hx.consumers s c hc
  by_cases hnone : itemsFor s x.ready = []
  · -- the call sees everything there is, so its sequence has no verdict yet
    right
    have hblocked : c.step (runners x.server.engine).decode (x.server.sched.seqs s) = none := by
      simpa [Deferred.step, hc, hx.seen_eq hnone hs] using hstuck
    have hopen : (x.server.sched.seqs s).isFinished = false := by
      by_contra hf
      rw [Bool.not_eq_false] at hf
      exact hawake.wakes hc hlive hf (blocked_of_step hblocked hlive)
    exact ⟨hopen, hx.fifo.complete s hs hopen⟩
  · -- an item is on its way, and wakes the call up
    left
    by_contra hno
    push Not at hno
    exact hnone (itemsFor_eq_nil hno)

/-- The only request has its verdict, and its call still waits for the first callback. -/
theorem deferred_blocked_first :
    let as : List DeferredEvent := [.event .startup,
      .event (.post 0 { prompt := ['h'], maxTokens := 1 }), .event (.loop .iterate),
      .event (.loop (.tickEnd [some 0]))]
    let x := runD (Deferred.step fun _ => mock) (Deferred.init 8 8192 : Deferred Unit) as
    (x.server.sched.seqs 0).isFinished = true ∧ ∃ p ∈ x.ready, p.1 = 0 := by
  intro as x
  have h := run_eq_runD (show (run (Deferred.step fun _ => mock)
    (Deferred.init 8 8192 : Deferred Unit) as).isSome = true by decide)
  have hc : x.server.consumers 0 = some (.generating 0) := by decide
  have hfinished : (x.server.sched.seqs 0).isFinished = true := by decide
  have hstuck : x.step (fun _ => mock) (.event (.read 0)) = none := by
    rw [Deferred.step, hc]
    rfl
  refine ⟨hfinished, ?_⟩
  rcases deferred_blocked h hc rfl hstuck with hready | ⟨hopen, -⟩
  · exact hready
  · cases hopen.symm.trans hfinished

end Refines

end NanoKube
