import LiveHls.Proofs.Catalog.Contribution

/-!
# A worker and those who send to it

Whoever has a handle sends commands through a queue that holds only so many; the worker takes them
in the order in which they were accepted. Handles come and go, a sender may give up while the queue
is full, and the worker may be stopped, all at any moment.

* `Service` : a worker with its queue, its handles and the record of what happened;
* `ClientStep`, `WorkerStep` : everything that those with a handle, and the worker, can do next;
* `Service.Recorded` : the record agrees with the worker; every step keeps it (`Recorded.step`);
* `Service.Served` : what was accepted, applied and answered (`served_of_reachable`);
* `applySkipping` : commands of which those that fail would change nothing; that is not what a
  worker makes of them (`failed_packet_is_not_skipped`).
-/

namespace LiveHls

open Rendition (camera cameraVideo cameraFrame shortest)

/-- A command that was sent through a handle. A flush has its number as its ticket. -/
structure Request where
  number : Nat
  handle : Nat
  command : Command
deriving DecidableEq

/-- A worker, those who send to it, and what has happened so far. -/
structure Service where
  worker : Worker
  /-- Commands that the queue holds. -/
  capacity : Nat
  handles : List Nat
  /-- Requests made so far; the next one has this number. -/
  requests : Nat
  /-- Requests that are not in the queue yet. -/
  pending : List Request
  /-- Whether the worker was told to stop. -/
  stopped : Bool
  /-- Whether the worker waits for a command or the stop. It looks for the stop before. -/
  polling : Bool
  /-- Requests that came into the queue, oldest first. -/
  accepted : List Request
  /-- Commands that were applied, oldest first. -/
  applied : List TimedCommand
  shutDowns : Nat

namespace Service

/-- A worker on a new catalog, with one handle. -/
def start (writerId : UInt32) (options : Options) (capacity : Nat) : Service where
  worker := .start (.new writerId options)
  capacity := max capacity 1
  handles := [0]
  requests := 0
  pending := []
  stopped := false
  polling := false
  accepted := []
  applied := []
  shutDowns := 0

/-! ## Steps -/

/-- A command is sent. It is in the queue once it is accepted. -/
def send (s : Service) (handle : Nat) (command : Command) : Service :=
  { s with
    pending := s.pending ++ [⟨s.requests, handle, command⟩]
    requests := s.requests + 1 }

def accept (s : Service) (r : Request) : Service :=
  { s with
    worker := (s.worker.enqueue r.command).1
    pending := s.pending.erase r
    accepted := s.accepted ++ [r] }

def look (s : Service) : Service := { s with polling := true }

/-- The worker applies the command, which is the oldest in its queue. -/
def take (s : Service) (command : Command) (now : Instant) : Service :=
  { s with
    worker := s.worker.step now
    polling := false
    applied := s.applied ++ [⟨command, now⟩] }

def finish (s : Service) : Service :=
  { s with
    worker := s.worker.shutDown
    polling := false
    shutDowns := s.shutDowns + 1 }

/-- What those who have a handle can do, and whoever may stop the worker. -/
inductive ClientStep (s : Service) : Service → Prop
  | clone (h h' : Nat) (hold : h ∈ s.handles) (hnew : h' ∉ s.handles) :
    ClientStep s { s with handles := h' :: s.handles }
  /-- A handle is kept as long as something is being sent through it. -/
  | release (h : Nat) (hold : h ∈ s.handles) (hidle : ∀ r ∈ s.pending, r.handle ≠ h) :
    ClientStep s { s with handles := s.handles.erase h }
  | send (h : Nat) (command : Command) (hold : h ∈ s.handles)
    (hticket : ∀ ticket, command = .flush ticket → ticket = s.requests) :
    ClientStep s (s.send h command)
  /-- The sender gives up, or has its answer. -/
  | abandon (r : Request) : ClientStep s { s with pending := s.pending.erase r }
  | accept (r : Request) (hr : r ∈ s.pending) (hroom : s.worker.queue.length < s.capacity)
    (hopen : s.worker.phase ≠ .ended) : ClientStep s (s.accept r)
  | stop : ClientStep s { s with stopped := true }

/-- What the worker can do. If it is told to stop while it waits it may still take a command. -/
inductive WorkerStep (s : Service) : Service → Prop
  | look (hready : s.worker.phase = .ready) (hstopped : s.stopped = false) : WorkerStep s s.look
  | take (now : Instant) (command : Command) (rest : List Command)
    (hready : s.worker.phase = .ready) (hpolling : s.polling = true)
    (hqueue : s.worker.queue = command :: rest) : WorkerStep s (s.take command now)
  | wake (till : Clock) (hresting : s.worker.phase = .resting till) :
    WorkerStep s { s with worker := s.worker.wake }
  /-- It ends when told to stop, or when nothing is queued and nobody is left to send. -/
  | finish (hready : s.worker.phase = .ready)
    (hend : s.stopped = true ∨ s.polling = true ∧ s.worker.queue = [] ∧ s.handles = []) :
    WorkerStep s s.finish

def Step (s s' : Service) : Prop := s.ClientStep s' ∨ s.WorkerStep s'

def Reachable (writerId : UInt32) (options : Options) (capacity : Nat) : Service → Prop :=
  Relation.ReflTransGen Step (start writerId options capacity)

/-! ## Answers -/

def ended (s : Service) : Prop := s.worker.phase = .ended

instance (s : Service) : Decidable s.ended := inferInstanceAs (Decidable (_ = _))

/-- What the sender of a request is told, once there is something to tell: a flush waits until it is
reached, any other command until it is in the queue. -/
def answer? (s : Service) (r : Request) : Option (Except Error Unit) :=
  if r ∈ s.accepted then
    match r.command with
    | .flush ticket => s.worker.flushed? ticket
    | _ => some (.ok ())
  else
    match (s.worker.enqueue r.command).2 with
    | .ok () => none
    | .error e => some (.error e)

/-! ## Numbers of requests -/

/-- The requests have different numbers below `bound`, and their tickets agree. -/
structure Numbered (bound : Nat) (xs : List Request) : Prop where
  number_lt : ∀ r ∈ xs, r.number < bound
  nodup : (xs.map (·.number)).Nodup
  ticket_eq : ∀ r ∈ xs, ∀ ticket, r.command = .flush ticket → ticket = r.number

section Numbered
variable {bound : Nat} {xs ys : List Request}

theorem Numbered.of_perm (h : Numbered bound xs) (hp : ys.Perm xs) : Numbered bound ys where
  number_lt r hr := h.number_lt r (hp.subset hr)
  nodup := (hp.map _).nodup_iff.2 h.nodup
  ticket_eq r hr := h.ticket_eq r (hp.subset hr)

theorem Numbered.of_sublist (h : Numbered bound xs) (hs : ys.Sublist xs) : Numbered bound ys where
  number_lt r hr := h.number_lt r (hs.subset hr)
  nodup := (hs.map _).nodup h.nodup
  ticket_eq r hr := h.ticket_eq r (hs.subset hr)

theorem Numbered.concat (h : Numbered bound xs) (handle : Nat) {command : Command}
    (hticket : ∀ ticket, command = .flush ticket → ticket = bound) :
    Numbered (bound + 1) (xs ++ [⟨bound, handle, command⟩]) where
  number_lt := by
    intro r hr
    rcases List.mem_append.1 hr with hr | hr
    · exact Nat.lt_succ_of_lt (h.number_lt r hr)
    · rw [List.mem_singleton.1 hr]
      exact Nat.lt_succ_self bound
  nodup := by
    rw [List.map_append, List.map_singleton]
    refine List.nodup_append.2 ⟨h.nodup, List.pairwise_singleton .., fun n hn b hb => ?_⟩
    obtain ⟨r, hr, rfl⟩ := List.mem_map.1 hn
    rw [List.mem_singleton.1 hb]
    exact Nat.ne_of_lt (h.number_lt r hr)
  ticket_eq := by
    intro r hr
    rcases List.mem_append.1 hr with hr | hr
    · exact h.ticket_eq r hr
    · rw [List.mem_singleton.1 hr]
      exact hticket

end Numbered

/-! ## The record -/

/-- The record of a service agrees with its worker: what was accepted and is not applied is still
queued, unless the worker has ended. -/
structure Recorded (writerId : UInt32) (options : Options) (s : Service) : Prop where
  numbered : Numbered s.requests (s.accepted ++ s.pending)
  applied_prefix : s.applied.map (·.command) <+: s.accepted.map (·.command)
  queue_eq : ¬ s.ended →
    s.accepted.map (·.command) = s.applied.map (·.command) ++ s.worker.queue
  catalog_eq : s.worker.catalog =
    if s.ended then ((Catalog.new writerId options).applyAll s.applied).close
    else (Catalog.new writerId options).applyAll s.applied
  acknowledged_eq : s.worker.acknowledged = s.applied.flatMap (·.command.ticket?.toList)
  shutDowns_eq : s.shutDowns = if s.ended then 1 else 0

end Service

theorem Worker.phaseAfter_ne_ended (clock : Clock) (ending : StepEnd) :
    Worker.phaseAfter clock ending ≠ .ended := by
  unfold phaseAfter
  split <;> nofun

theorem Worker.enqueue_of_ne_ended (w : Worker) {command : Command} (hopen : w.phase ≠ .ended) :
    (w.enqueue command).1 = { w with queue := w.queue ++ [command] } := by
  rw [enqueue, if_neg hopen]

theorem Worker.step_of_ready {w : Worker} {command : Command} {rest : List Command}
    (hready : w.phase = .ready) (hqueue : w.queue = command :: rest) (now : Instant) :
    w.step now = { w with
      catalog := (command.apply now w.catalog).1
      queue := rest
      phase := phaseAfter w.clock (.ofResult (command.apply now w.catalog).2)
      acknowledged := w.acknowledged ++ command.ticket?.toList } := by
  unfold step
  rw [hready, hqueue]

namespace Service

section Steps
variable {writerId : UInt32} {options : Options} {s s' : Service}

theorem recorded_start (writerId : UInt32) (options : Options) (capacity : Nat) :
    (start writerId options capacity).Recorded writerId options where
  numbered := ⟨nofun, List.nodup_nil, nofun⟩
  applied_prefix := List.nil_prefix
  queue_eq _ := rfl
  catalog_eq := rfl
  acknowledged_eq := rfl
  shutDowns_eq := rfl

theorem Recorded.catalog_of_not_ended (h : s.Recorded writerId options) (hopen : ¬ s.ended) :
    s.worker.catalog = (Catalog.new writerId options).applyAll s.applied :=
  h.catalog_eq.trans (if_neg hopen)

theorem Recorded.shutDowns_of_not_ended (h : s.Recorded writerId options) (hopen : ¬ s.ended) :
    s.shutDowns = 0 :=
  h.shutDowns_eq.trans (if_neg hopen)

theorem recorded_of_not_ended (hopen : ¬ s.ended)
    (hnumbered : Numbered s.requests (s.accepted ++ s.pending))
    (hqueue : s.accepted.map (·.command) = s.applied.map (·.command) ++ s.worker.queue)
    (hcatalog : s.worker.catalog = (Catalog.new writerId options).applyAll s.applied)
    (hacknowledged : s.worker.acknowledged = s.applied.flatMap (·.command.ticket?.toList))
    (hshutDowns : s.shutDowns = 0) : s.Recorded writerId options where
  numbered := hnumbered
  applied_prefix := hqueue ▸ List.prefix_append ..
  queue_eq _ := hqueue
  catalog_eq := hcatalog.trans (if_neg hopen).symm
  acknowledged_eq := hacknowledged
  shutDowns_eq := hshutDowns.trans (if_neg hopen).symm

theorem Recorded.clientStep (h : s.Recorded writerId options) (hstep : s.ClientStep s') :
    s'.Recorded writerId options := by
  cases hstep with
  | clone => exact { h with }
  | release => exact { h with }
  | stop => exact { h with }
  | send handle command hold hticket =>
    have hsent := h.numbered.concat handle hticket
    rw [List.append_assoc] at hsent
    exact { h with numbered := hsent }
  | abandon r =>
    exact { h with
      numbered := h.numbered.of_sublist (List.erase_sublist.append_left s.accepted) }
  | accept r hr hroom hopen =>
    rw [Service.accept, s.worker.enqueue_of_ne_ended hopen]
    refine recorded_of_not_ended hopen ?_ ?_ (h.catalog_of_not_ended hopen) h.acknowledged_eq
      (h.shutDowns_of_not_ended hopen)
    · refine h.numbered.of_perm ?_
      rw [List.append_assoc]
      exact ((List.perm_cons_erase hr).symm).append_left s.accepted
    · rw [List.map_append, h.queue_eq hopen, List.append_assoc]
      rfl

theorem Recorded.workerStep (h : s.Recorded writerId options) (hstep : s.WorkerStep s') :
    s'.Recorded writerId options := by
  cases hstep with
  | look hready hstopped => exact { h with }
  | take now command rest hready hpolling hqueue =>
    have hopen : ¬ s.ended := by rw [ended, hready]; nofun
    rw [Service.take, Worker.step_of_ready hready hqueue]
    refine recorded_of_not_ended (fun he => Worker.phaseAfter_ne_ended _ _ he) h.numbered ?_ ?_ ?_
      (h.shutDowns_of_not_ended hopen)
    · rw [h.queue_eq hopen, hqueue, List.map_append, List.append_assoc]
      rfl
    · rw [h.catalog_of_not_ended hopen, Catalog.applyAll_concat]
    · rw [h.acknowledged_eq, List.flatMap_append, List.flatMap_singleton]
  | wake till hresting =>
    have hopen : ¬ s.ended := by rw [ended, hresting]; nofun
    rw [show s.worker.wake = { s.worker with
      clock := max s.worker.clock till
      phase := .ready } by rw [Worker.wake, hresting]]
    exact recorded_of_not_ended nofun h.numbered (h.queue_eq hopen) (h.catalog_of_not_ended hopen)
      h.acknowledged_eq (h.shutDowns_of_not_ended hopen)
  | finish hready hend =>
    have hopen : ¬ s.ended := by rw [ended, hready]; nofun
    exact { h with
      queue_eq := fun hended => absurd rfl hended
      catalog_eq := congrArg Catalog.close (h.catalog_of_not_ended hopen)
      shutDowns_eq := congrArg (· + 1) (h.shutDowns_of_not_ended hopen) }

theorem Recorded.step (h : s.Recorded writerId options) (hstep : s.Step s') :
    s'.Recorded writerId options :=
  hstep.elim h.clientStep h.workerStep

theorem recorded_of_reachable {capacity : Nat} (h : Reachable writerId options capacity s) :
    s.Recorded writerId options := by
  induction h with
  | refl => exact recorded_start writerId options capacity
  | tail _ hstep ih => exact ih.step hstep

theorem Recorded.nodup_accepted (h : s.Recorded writerId options) : s.accepted.Nodup := by
  have hnodup := h.numbered.nodup.sublist ((List.sublist_append_left ..).map _)
  exact List.Pairwise.of_map (·.number) (fun _ _ hne he => hne (congrArg _ he)) hnodup

/-! ## Flushes -/

theorem prefix_of_mem {α : Type} {xs before after : List α} {a : α}
    (hxs : xs <+: before ++ a :: after) (ha : a ∈ xs) (hbefore : a ∉ before) :
    before ++ [a] <+: xs := by
  have hconcat : before ++ [a] <+: before ++ a :: after := ⟨after, by simp⟩
  rcases List.prefix_or_prefix_of_prefix hconcat hxs with h | h
  · exact h
  · rcases List.prefix_concat_iff.1 h with rfl | h
    · exact List.prefix_rfl
    · exact absurd (h.subset ha) hbefore

theorem Recorded.mem_acknowledged_iff (h : s.Recorded writerId options) (ticket : Nat) :
    ticket ∈ s.worker.acknowledged ↔ .flush ticket ∈ s.applied.map (·.command) := by
  rw [h.acknowledged_eq]
  constructor
  · intro hmem
    obtain ⟨a, ha, hticket⟩ := List.mem_flatMap.1 hmem
    refine List.mem_map.2 ⟨a, ha, ?_⟩
    unfold Command.ticket? at hticket
    split at hticket
    · rename_i hcommand
      rw [hcommand, List.mem_singleton.1 hticket]
    · cases hticket
  · intro hmem
    obtain ⟨a, ha, hcommand⟩ := List.mem_map.1 hmem
    exact List.mem_flatMap.2 ⟨a, ha, by rw [hcommand]; exact List.mem_singleton_self _⟩

/-- A flush was reached exactly if it and all that was accepted before it were applied. -/
theorem Recorded.reached_iff (h : s.Recorded writerId options) {before after : List Request}
    {r : Request} {ticket : Nat} (haccepted : s.accepted = before ++ r :: after)
    (hflush : r.command = .flush ticket) :
    ticket ∈ s.worker.acknowledged ↔
      (before ++ [r]).map (·.command) <+: s.applied.map (·.command) := by
  rw [h.mem_acknowledged_iff, List.map_append, List.map_singleton, hflush]
  constructor
  · intro hmem
    have hprefix := h.applied_prefix
    rw [haccepted, List.map_append, List.map_cons, hflush] at hprefix
    refine prefix_of_mem hprefix hmem fun hbefore => ?_
    -- a flush before this one has another ticket
    obtain ⟨r', hr', hcommand⟩ := List.mem_map.1 hbefore
    have hnodup := h.numbered.nodup
    have hticket := h.numbered.ticket_eq
    rw [haccepted] at hnodup hticket
    have hsame : r'.number = r.number :=
      (hticket r' (by simp [hr']) ticket hcommand).symm.trans (hticket r (by simp) ticket hflush)
    rw [List.append_assoc, List.map_append] at hnodup
    exact (List.nodup_append.1 hnodup).2.2 _ (List.mem_map_of_mem hr') _ (by simp) hsame
  · exact fun hprefix => hprefix.subset (by simp)

end Steps

/-! ## After the end -/

section End
variable {s s' : Service}

theorem step_of_ended (hended : s.ended) (hstep : s.Step s') : s'.ended ∧
    s'.worker = s.worker ∧ s'.applied = s.applied ∧ s'.accepted = s.accepted ∧
    s'.shutDowns = s.shutDowns := by
  have hphase : s.worker.phase = .ended := hended
  rcases hstep with hstep | hstep
  · cases hstep with
    | accept r hr hroom hopen => exact absurd hended hopen
    | _ => exact ⟨hended, rfl, rfl, rfl, rfl⟩
  · -- the worker only goes on while it is ready or rests
    cases hstep with
    | look hready => exact absurd (hready.symm.trans hphase) nofun
    | take now command rest hready => exact absurd (hready.symm.trans hphase) nofun
    | wake till hresting => exact absurd (hresting.symm.trans hphase) nofun
    | finish hready => exact absurd (hready.symm.trans hphase) nofun

/-- **Nothing happens to a worker that has ended.** -/
theorem steps_of_ended (hended : s.ended) (hsteps : Relation.ReflTransGen Step s s') : s'.ended ∧
    s'.worker = s.worker ∧ s'.applied = s.applied ∧ s'.accepted = s.accepted ∧
    s'.shutDowns = s.shutDowns := by
  induction hsteps with
  | refl => exact ⟨hended, rfl, rfl, rfl, rfl⟩
  | tail _ hstep ih =>
    obtain ⟨hended', hworker, happlied, haccepted, hshutDowns⟩ := ih
    have hlast := step_of_ended hended' hstep
    rwa [hworker, happlied, haccepted, hshutDowns] at hlast

end End

/-! ## Progress -/

section Progress
variable {s : Service}

/-- A worker that has not ended is ready, now or after a rest. -/
theorem exists_ready (hopen : ¬ s.ended) : ∃ s', Relation.ReflTransGen WorkerStep s s' ∧
    s'.worker.phase = .ready ∧ s'.worker.queue = s.worker.queue ∧ s'.stopped = s.stopped ∧
    s'.handles = s.handles ∧ s'.applied = s.applied := by
  cases hphase : s.worker.phase with
  | ready => exact ⟨s, .refl, hphase, rfl, rfl, rfl, rfl⟩
  | resting till =>
    refine ⟨_, .single (.wake till hphase), ?_⟩
    rw [Worker.wake, hphase]
    exact ⟨rfl, rfl, rfl, rfl, rfl⟩
  | ended => exact absurd hphase hopen

/-- **A command that is queued is reached**, whatever the one before it did, unless the worker is
told to stop. -/
theorem exists_take (hopen : ¬ s.ended) (hstopped : s.stopped = false) {command : Command}
    {rest : List Command} (hqueue : s.worker.queue = command :: rest) (now : Instant) :
    ∃ s', Relation.ReflTransGen WorkerStep s s' ∧ ¬ s'.ended ∧ s'.worker.queue = rest ∧
      s'.applied = s.applied ++ [⟨command, now⟩] := by
  obtain ⟨s₁, hsteps, hready, hqueue₁, hstopped₁, -, happlied⟩ := exists_ready hopen
  refine ⟨_, (hsteps.tail (.look hready (hstopped₁.trans hstopped))).tail
    (.take now command rest hready rfl (hqueue₁.trans hqueue)), ?_⟩
  rw [take, look, Worker.step_of_ready hready (hqueue₁.trans hqueue), happlied]
  exact ⟨fun hended => Worker.phaseAfter_ne_ended _ _ hended, rfl, rfl⟩

/-- **A worker that is told to stop ends**, and so does one that nobody can send to. -/
theorem exists_finish (hopen : ¬ s.ended)
    (hend : s.stopped = true ∨ s.worker.queue = [] ∧ s.handles = []) :
    ∃ s', Relation.ReflTransGen WorkerStep s s' ∧ s'.ended := by
  obtain ⟨s₁, hsteps, hready, hqueue, hstopped, hhandles, -⟩ := exists_ready hopen
  cases hs : s.stopped with
  | true => exact ⟨_, hsteps.tail (.finish hready (Or.inl (hstopped.trans hs))), rfl⟩
  | false =>
    obtain ⟨hnone, hnobody⟩ := hend.resolve_left (by rw [hs]; nofun)
    refine ⟨_, (hsteps.tail (.look hready (hstopped.trans hs))).tail (.finish hready ?_), rfl⟩
    exact Or.inr ⟨rfl, hqueue.trans hnone, hhandles.trans hnobody⟩

end Progress

/-! ## What is served -/

/-- A service whose catalog is what the commands applied so far make of it, in the order in which
they were accepted, and whose answers say so. -/
structure Served (writerId : UInt32) (options : Options) (s : Service) : Prop where
  /-- The catalog is what the applied commands make of it; the end closes it. -/
  catalog_eq : s.worker.catalog =
    if s.ended then ((Catalog.new writerId options).applyAll s.applied).close
    else (Catalog.new writerId options).applyAll s.applied
  /-- No command is applied before one that was accepted before it, or without being accepted. -/
  applied_prefix : s.applied.map (·.command) <+: s.accepted.map (·.command)
  /-- No request is accepted twice. -/
  nodup_accepted : s.accepted.Nodup
  number_lt : ∀ r ∈ s.accepted, r.number < s.requests
  /-- Nothing is lost before the end: what was accepted is applied or still queued. -/
  queue_eq : ¬ s.ended →
    s.accepted.map (·.command) = s.applied.map (·.command) ++ s.worker.queue
  /-- What a command that fails contributes. -/
  contribution : ∀ before a, before ++ [a] <+: s.applied →
    ((Catalog.new writerId options).applyAll before).Contribution a
  /-- Whatever a command did, the worker goes on with the next one. -/
  goes_on : ¬ s.ended → s.stopped = false → ∀ command rest, s.worker.queue = command :: rest →
    ∀ now, ∃ s', Relation.ReflTransGen WorkerStep s s' ∧ ¬ s'.ended ∧ s'.worker.queue = rest ∧
      s'.applied = s.applied ++ [⟨command, now⟩]
  /-- A flush succeeds exactly when it and all that was accepted before it were applied. -/
  flush_ok_iff : ∀ before r after ticket, s.accepted = before ++ r :: after →
    r.command = .flush ticket →
    (s.answer? r = some (.ok ()) ↔
      (before ++ [r]).map (·.command) <+: s.applied.map (·.command))
  /-- A flush that is not in the queue does not succeed. -/
  flush_ne_ok : ∀ r, r ∉ s.accepted → s.answer? r ≠ some (.ok ())
  /-- The worker ends when it is told to stop, or when nobody can send to it. -/
  ends : ¬ s.ended → s.stopped = true ∨ s.worker.queue = [] ∧ s.handles = [] →
    ∃ s', Relation.ReflTransGen WorkerStep s s' ∧ s'.ended
  /-- It is shut down once. -/
  shutDowns_eq : s.shutDowns = if s.ended then 1 else 0
  /-- Every rendition that was ever made is closed then. -/
  closed : s.ended → ∀ h r, s.worker.catalog.rendition? h = some r → r.closed = true
  /-- Nothing is accepted or applied any more. -/
  final : s.ended → ∀ s', Relation.ReflTransGen Step s s' → s'.ended ∧ s'.worker = s.worker ∧
    s'.applied = s.applied ∧ s'.accepted = s.accepted ∧ s'.shutDowns = s.shutDowns
  /-- A flush that was not reached is told that the worker is closed. -/
  flush_closed : s.ended → ∀ before r after ticket, s.accepted = before ++ r :: after →
    r.command = .flush ticket →
    ¬ (before ++ [r]).map (·.command) <+: s.applied.map (·.command) →
    s.answer? r = some (.error .closed)
  /-- So is whoever sent a command that is not in the queue, also later. -/
  closed_of_not_accepted : s.ended → ∀ s', Relation.ReflTransGen Step s s' →
    ∀ r, r ∉ s.accepted → s'.answer? r = some (.error .closed)

section Answers
variable {s : Service} {r : Request}

theorem answer?_of_not_accepted (hr : r ∉ s.accepted) :
    s.answer? r = if s.ended then some (.error .closed) else none := by
  rw [answer?, if_neg hr]
  by_cases hended : s.worker.phase = .ended <;> simp [Worker.enqueue, ended, hended]

theorem answer?_of_flush (hr : r ∈ s.accepted) {ticket : Nat} (hflush : r.command = .flush ticket) :
    s.answer? r = s.worker.flushed? ticket := by
  rw [answer?, if_pos hr, hflush]

theorem flushed?_eq_ok_iff (ticket : Nat) :
    s.worker.flushed? ticket = some (.ok ()) ↔ ticket ∈ s.worker.acknowledged := by
  unfold Worker.flushed?
  split
  · rename_i hmem
    exact iff_of_true rfl hmem
  · rename_i hmem
    refine iff_of_false ?_ hmem
    split <;> nofun

end Answers

/-- **Commands are applied in the order in which they were accepted, each once**, whoever sends them
and however handles come and go, and whenever the worker is told to stop. Until the end nothing that
was accepted is lost. A flush succeeds only when everything accepted before it was applied. After
the end, which comes once, every rendition is closed, nothing is applied any more, and every flush
that was not reached and every command that was not accepted is told so. -/
theorem served_of_reachable {writerId : UInt32} {options : Options} {capacity : Nat} {s : Service}
    (hreach : Reachable writerId options capacity s) : s.Served writerId options := by
  have h := recorded_of_reachable hreach
  have hmem : ∀ {before r after}, s.accepted = before ++ r :: after → r ∈ s.accepted := by
    intro before r after haccepted
    rw [haccepted]
    simp
  exact {
    catalog_eq := h.catalog_eq
    applied_prefix := h.applied_prefix
    nodup_accepted := h.nodup_accepted
    number_lt := fun r hr => h.numbered.number_lt r (List.mem_append_left _ hr)
    queue_eq := h.queue_eq
    contribution := fun before a _ =>
      (Catalog.reachable_applyAll writerId options before).tended.distinct.contribution a
    goes_on := fun hopen hstopped command rest hqueue now => exists_take hopen hstopped hqueue now
    flush_ok_iff := fun before r after ticket haccepted hflush => by
      rw [answer?_of_flush (hmem haccepted) hflush, flushed?_eq_ok_iff,
        h.reached_iff haccepted hflush]
    flush_ne_ok := fun r hr => by
      rw [answer?_of_not_accepted hr]
      split <;> nofun
    ends := exists_finish
    shutDowns_eq := h.shutDowns_eq
    closed := fun hended i r hr => by
      rw [h.catalog_eq, if_pos hended] at hr
      exact (Catalog.reachable_applyAll writerId options s.applied).tended.closed_of_close hr
    final := fun hended s' hsteps => steps_of_ended hended hsteps
    flush_closed := fun hended before r after ticket haccepted hflush hnot => by
      rw [← h.reached_iff haccepted hflush] at hnot
      rw [answer?_of_flush (hmem haccepted) hflush, Worker.flushed?, if_neg hnot]
      exact if_pos hended
    closed_of_not_accepted := fun hended s' hsteps r hr => by
      obtain ⟨hended', -, -, haccepted, -⟩ := steps_of_ended hended hsteps
      rw [answer?_of_not_accepted (by rwa [haccepted]), if_pos hended'] }

/-! ### A breakdown, a packet that fails, and flushes before and after the stop -/

/-- The service after a command that finds the worker idle. -/
def serve (s : Service) (h : Nat) (command : Command) (now : Instant) : Service :=
  ((((s.send h command).accept ⟨s.requests, h, command⟩).look).take command now)

theorem Reachable.serve {writerId : UInt32} {options : Options} {capacity : Nat} {s : Service}
    (hreach : Reachable writerId options capacity s) (h : Nat) (command : Command)
    (hold : h ∈ s.handles) (hticket : ∀ ticket, command = .flush ticket → ticket = s.requests)
    (hready : s.worker.phase = .ready) (hqueue : s.worker.queue = []) (hroom : 0 < s.capacity)
    (hstopped : s.stopped = false) (now : Instant) :
    Reachable writerId options capacity (s.serve h command now) := by
  have hopen : s.worker.phase ≠ .ended := by rw [hready]; nofun
  have hworker : ((s.send h command).accept ⟨s.requests, h, command⟩).worker =
      { s.worker with queue := [command] } := by
    refine (s.worker.enqueue_of_ne_ended hopen).trans ?_
    rw [hqueue]
    rfl
  have hsent : Reachable writerId options capacity (s.send h command) :=
    hreach.tail (.inl (.send h command hold hticket))
  have haccepted := hsent.tail (.inl (.accept ⟨s.requests, h, command⟩
    (List.mem_append_right _ (List.mem_singleton_self _)) (hqueue ▸ hroom) hopen))
  have hlooked := haccepted.tail (.inr (.look (by rw [hworker]; exact hready) hstopped))
  exact hlooked.tail (.inr (.take now command [] (by rw [look, hworker]; exact hready) rfl
    (by rw [look, hworker])))

/-- A frame of the camera that cannot be carried. -/
def motionFrame : Packet :=
  { cameraFrame true with medium := .video { cameraVideo with codec := .mjpeg } true }

/-- A frame, one that breaks down, and after the rest one that cannot be carried and a flush. -/
def afterFlush : Service :=
  let s := ((start 0 shortest 2).serve 0 (.packet (cameraFrame true)) ⟨0, 0⟩).serve 0
    (.packet Rendition.endless) ⟨0, 0⟩
  let s := { s with worker := s.worker.wake }
  (s.serve 0 (.packet motionFrame) ⟨0, 0⟩).serve 0 (.flush 3) ⟨0, 0⟩

theorem reachable_afterFlush : Reachable 0 shortest 2 afterFlush := by
  have h₁ : Reachable 0 shortest 2 _ := Reachable.serve .refl 0 (.packet (cameraFrame true))
    (by decide) (by nofun) rfl rfl (by decide) rfl ⟨0, 0⟩
  have h₂ := h₁.serve 0 (.packet Rendition.endless) (by decide) (by nofun) rfl rfl (by decide) rfl
    ⟨0, 0⟩
  have h₃ : Reachable 0 shortest 2 _ := h₂.tail (.inr (.wake 100 rfl))
  have h₄ := h₃.serve 0 (.packet motionFrame) (by decide) (by nofun) rfl rfl (by decide) rfl ⟨0, 0⟩
  exact h₄.serve 0 (.flush 3) (by decide) (by rintro _ ⟨⟩; rfl) rfl rfl (by decide) rfl ⟨0, 0⟩

/-- Two more commands are queued and a third waits when the worker is told to stop. -/
def afterStop : Service :=
  let s := { afterFlush with handles := [1, 0] }
  let s := (s.send 1 (.packet (cameraFrame true))).accept ⟨4, 1, .packet (cameraFrame true)⟩
  let s := ((s.send 1 (.flush 5)).accept ⟨5, 1, .flush 5⟩).send 0 (.flush 6)
  { s with stopped := true }.finish

theorem reachable_afterStop : Reachable 0 shortest 2 afterStop := by
  have hcloned := reachable_afterFlush.tail (.inl (.clone 0 1 (by decide) (by decide)))
  have hframe := (hcloned.tail (.inl (.send 1 (.packet (cameraFrame true)) (by decide)
    (by nofun)))).tail (.inl (.accept ⟨4, 1, .packet (cameraFrame true)⟩ (by decide) (by decide)
    (by nofun)))
  have hflush := (hframe.tail (.inl (.send 1 (.flush 5) (by decide) (by rintro _ ⟨⟩; rfl)))).tail
    (.inl (.accept ⟨5, 1, .flush 5⟩ (by decide) (by decide) (by nofun)))
  have hwaits := hflush.tail (.inl (.send 0 (.flush 6) (by decide) (by rintro _ ⟨⟩; rfl)))
  exact (hwaits.tail (.inl .stop)).tail (.inr (.finish rfl (Or.inl rfl)))

/-- Of six commands in the queue four were applied, one of which broke down and one of which failed.
The flush among them succeeds, the one that was queued behind and the one that waited do not. -/
theorem served_afterStop : Reachable 0 shortest 2 afterStop ∧ afterStop.Served 0 shortest ∧
    afterStop.ended ∧ afterStop.accepted.length = 6 ∧ afterStop.applied.length = 4 ∧
    afterStop.shutDowns = 1 ∧ afterStop.answer? ⟨3, 0, .flush 3⟩ = some (.ok ()) ∧
    afterStop.answer? ⟨5, 1, .flush 5⟩ = some (.error .closed) ∧
    afterStop.answer? ⟨6, 0, .flush 6⟩ = some (.error .closed) := by
  have hserved := served_of_reachable reachable_afterStop
  refine ⟨reachable_afterStop, hserved, rfl, rfl, rfl, rfl, ?_, ?_, ?_⟩
  · exact (hserved.flush_ok_iff (afterStop.accepted.take 3) _ (afterStop.accepted.drop 4) 3 rfl
      rfl).2 List.prefix_rfl
  · refine hserved.flush_closed rfl (afterStop.accepted.take 5) _ [] 5 rfl rfl fun hprefix => ?_
    exact absurd hprefix.length_le (by decide)
  · exact hserved.closed_of_not_accepted rfl afterStop .refl _ (by decide)

end Service

/-! ## Packets that fail are not ignored -/

/-- Commands one after the other, if those that fail with an error changed nothing. -/
def Catalog.applySkipping (c : Catalog) (commands : List TimedCommand) : Catalog :=
  commands.foldl (fun c a =>
    match a.command.apply a.time c with
    | (_, .error (.error _)) => c
    | (c, _) => c) c

namespace Service

/-- A frame that lasts no time. -/
def stillFrame : Packet := { cameraFrame true with duration := .zero }

/-- A frame, and one that cannot be carried. -/
def afterMotion : Service :=
  ((start 0 shortest 2).serve 0 (.packet stillFrame) ⟨0, 0⟩).serve 0 (.packet motionFrame)
    ⟨0, 0⟩

/-- **A packet that fails leaves something behind**: the camera is known to send what cannot be
carried, and its rendition is closed. No part of the commands makes that of a catalog if those that
fail change nothing. -/
theorem failed_packet_is_not_skipped : Reachable 0 shortest 2 afterMotion ∧
    afterMotion.applied.map (·.command) = afterMotion.accepted.map (·.command) ∧
    afterMotion.worker.catalog.renditions.map (·.closed) = [true] ∧
    ∀ commands : List TimedCommand,
      commands.map (·.command) <+: afterMotion.accepted.map (·.command) →
      afterMotion.worker.catalog ≠ (Catalog.new 0 shortest).applySkipping commands := by
  refine ⟨?_, rfl, rfl, fun commands hprefix heq => ?_⟩
  · have h : Reachable 0 shortest 2 _ := Reachable.serve .refl 0 (.packet stillFrame) (by decide)
      (by nofun) rfl rfl (by decide) rfl ⟨0, 0⟩
    exact h.serve 0 (.packet motionFrame) (by decide) (by nofun) rfl rfl (by decide) rfl ⟨0, 0⟩
  · -- only the frame that fails makes the other format known
    have hother : afterMotion.worker.catalog.formats ≠ [camera] := by decide
    have hformats := congrArg Catalog.formats heq
    obtain ⟨rest, hrest⟩ := hprefix
    match commands, hrest with
    | [], _ => exact absurd hformats (by decide)
    | [⟨command, time⟩], hrest =>
      obtain rfl : command = .packet stillFrame := (List.cons.inj hrest).1
      exact hother hformats
    | [⟨command, time⟩, ⟨command', time'⟩], hrest =>
      obtain rfl : command = .packet stillFrame := (List.cons.inj hrest).1
      obtain rfl : command' = .packet motionFrame := (List.cons.inj (List.cons.inj hrest).2).1
      exact hother hformats
    | _ :: _ :: _ :: _, hrest =>
      cases (List.cons.inj (List.cons.inj hrest).2).2

end Service

end LiveHls
