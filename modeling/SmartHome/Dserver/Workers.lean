/-
  Subject:   THE WORKER THREADS (thread.c, ae_epoll.c, ae_select.c, servernet.c of dserver), in any order.

  The workers take turns as the leader, who polls, takes one ready descriptor and lets the next worker lead
  while it drives the connection itself. A step here is one access to what the workers share: the lock, the
  table `loop.conns`, what was polled (`loop.fired`), the descriptors, the poll set and the free list. In
  between, a worker holds what it read: `calling` holds the connection as it was when the system call was
  made, and what the call comes to is written over whatever is there by then.

  * `Watch`, `Api` -- what is known of a descriptor by `epoll` (armed once) and by `select` (armed until it
    is deleted, and looked at up to `maxfd`);
  * `Cell`, `Worker`, `Sys`, `workerNext`, `next` -- the source; `boot` -- what `loop_run` begins with;
  * `Step`, `workerNext_step` -- a step of a worker, by where it was.
-/
import SmartHome.Lib.Ownership
import SmartHome.Dserver.Commands

namespace SmartHome.Dserver.Workers

open SmartHome.Lib

/-! ## 1. The poll set -/

/-- A descriptor in the poll set: not in it, in it and silent, in it and reported when it is ready. -/
inductive Watch where
  | out
  | disarmed
  | armed
  deriving DecidableEq

/-- The poll set of `ae_epoll.c`, and the one of `ae_select.c`. -/
inductive Api where
  | epoll
  | select
  deriving DecidableEq

/-- `aeApiAddEvent`: `EPOLL_CTL_ADD` with `EPOLLONESHOT`, where `EEXIST` is no error; `FD_SET`. -/
def Api.addEvent : Api → Watch → Watch
  | .epoll, .out => .armed
  | .epoll, w => w
  | .select, _ => .armed

/-- `aeApiUpdateEvent`: `EPOLL_CTL_MOD`, an error where the descriptor is not in the set; `FD_SET`. -/
def Api.updateEvent : Api → Watch → Option Watch
  | .epoll, .out => none
  | .epoll, _ => some .armed
  | .select, _ => some .armed

/-- `close()`: a closed descriptor leaves the set of `epoll`, but not an `fd_set`. -/
def Api.close : Api → Watch → Watch
  | .epoll, _ => .out
  | .select, w => w

/-- A descriptor is reported: once, or every time. -/
def Api.report : Api → Watch → Watch
  | .epoll, _ => .disarmed
  | .select, w => w

/-- `aeApiPoll` looks at a descriptor: with `select`, at those up to `maxfd`. -/
def Api.scans : Api → Int → Nat → Bool
  | .epoll, _, _ => true
  | .select, maxfd, fd => (fd : Int) ≤ maxfd

/-- A registered descriptor that was reported, until it is updated. -/
def Api.reported (api : Api) : Watch := api.report .armed

/-! ## 2. The workers -/

/-- `AE_SETSIZE`. -/
def aeSetsize : Nat := 1024 * 60

/-- `FD_SETSIZE`. -/
def fdSetsize : Nat := 1024

/-- A `conn` structure: its descriptor (`sfd`, none for -1), whether it listens, and else the connection of
    it, with all that its client sends. -/
structure Cell where
  sfd : Option Nat
  listening : Bool
  sent : Bytes
  world : World

/-- Where a worker is. -/
inductive Worker where
  /-- at `pthread_mutex_lock(&leader)` -/
  | waiting
  /-- at `AGAIN`, with the lock -/
  | leading
  /-- in the loop of `drive_machine(c)` -/
  | driving (fd c : Nat)
  /-- in a system call for the client -/
  | calling (fd c : Nat) (world : World)
  /-- `accept()` has returned `sfd` -/
  | accepted (fd c sfd : Nat)
  /-- in `conn_new`, with the structure `d` set up; `add_event` is next -/
  | filled (fd c sfd d : Nat)
  /-- in `add_event`, with `d` in the table; `aeApiAddEvent` is next -/
  | adding (fd c sfd d : Nat)
  /-- `add_event` has failed; `conn_add_to_freelist(d)` is next -/
  | refused (fd c sfd d : Nat)
  /-- `close(sfd)` is next -/
  | rejected (fd c sfd : Nat)
  /-- `drive_machine` has returned 1; `update_event` is next -/
  | updating (fd c : Nat)
  /-- in `update_event`, with `c` in the table; `aeApiUpdateEvent` is next -/
  | arming (fd c : Nat)
  /-- at the start of `conn_close` -/
  | closing (fd c : Nat)
  /-- in `delete_event`; `aeApiDelEvent` is next -/
  | deleting (fd c : Nat)
  /-- `close(c->sfd)` is next -/
  | shutting (fd c : Nat)
  /-- `conn_add_to_freelist` or `conn_free` is next -/
  | freeing (c : Nat)
  /-- the assertion of `add_event` has failed -/
  | aborted

/-- What the workers share, and where they are. `fired` are the first `nready` of `loop.fired`; `maxfd` is that
    of `select`, and `limit` the number of descriptors the process may have. -/
structure Sys where
  conns : Nat → Option Nat
  fired : List Nat
  leader : Option Nat
  workers : Nat → Worker
  opened : Nat → Bool
  watch : Nat → Watch
  maxfd : Int
  limit : Nat
  heap : Nat → Option Cell
  freeconns : List Nat

/-- What the source leaves open in a step: what a system call returns, what a client will send. -/
inductive Choice where
  | go
  | fails
  | ready (fds : List Nat)
  | accept (sfd : Nat)
  | noConnection
  | conn (d : Nat) (rbuf sent : Bytes)
  | returns (e : Event)

/-- A worker goes on. -/
def goes (w : Nat) (p : Worker) (s : Sys) : Sys := { s with workers := Function.update s.workers w p }

/-- What a new client's `conn` is set to. -/
def Cell.fresh (sfd : Nat) (rbuf : Bytes) (h : 0 < rbuf.length) (sent : Bytes) : Cell :=
  ⟨some sfd, false, sent, start rbuf h sent⟩

/-- `conn_from_freelist` or `calloc`, and the fields set: the structure and what stays of the free list. -/
def connNew (s : Sys) (sfd d : Nat) (rbuf sent : Bytes) : Option (Cell × List Nat) :=
  match s.freeconns.getLast?, s.heap d with
  | some d', some cell =>
    if d' = d then
      some (.fresh sfd cell.world.conn.buf.cells cell.world.conn.sized sent, s.freeconns.dropLast)
    else none
  | none, none =>
    if h : rbuf.length = 2048 then some (.fresh sfd rbuf (h ▸ Nat.succ_pos 2047) sent, []) else none
  | _, _ => none

/-- The system call leaves `stop` set: there was nothing to read, or no room to write. -/
def stops (w : World) : Event → Bool
  | .read .again => w.got.isEmpty
  | .transmit .softError => true
  | _ => false

/-- **What a worker does next**, by where it is. -/
def workerNext (api : Api) (s : Sys) (w : Nat) : Worker → Choice → Option Sys
  | .waiting, .go => if s.leader = none then some (goes w .leading { s with leader := some w }) else none
  | .leading, .ready fds =>
    if s.fired = [] ∧ fds.Nodup ∧ ∀ fd ∈ fds, s.watch fd = .armed ∧ api.scans s.maxfd fd = true then
      some { s with
        fired := fds
        watch := fun fd => if fd ∈ fds then api.report (s.watch fd) else s.watch fd }
    else none
  | .leading, .go =>
    match s.fired.getLast? with
    | none => none
    | some fd =>
      match s.conns fd with
      | some c => some (goes w (.driving fd c) { s with fired := s.fired.dropLast, leader := none })
      -- "Bug: conn %d should not be NULL"
      | none =>
        some { s with
          fired := s.fired.dropLast
          watch := Function.update s.watch fd .out
          opened := Function.update s.opened fd false }
  | .driving fd c, .accept sfd =>
    match s.heap c with
    | some cell =>
      if cell.listening = true ∧ s.opened sfd = false ∧ sfd < s.limit then
        some (goes w (.accepted fd c sfd) { s with opened := Function.update s.opened sfd true })
      else none
    | none => none
  | .driving fd c, .noConnection =>
    match s.heap c with
    | some cell => if cell.listening then some (goes w (.updating fd c) s) else none
    | none => none
  | .driving fd c, .go =>
    match s.heap c with
    | some cell => if cell.listening then none else some (goes w (.calling fd c cell.world) s)
    | none => none
  | .calling fd c world, .returns e =>
    match s.heap c, connNext world e with
    | some cell, some world' =>
      let s' := { s with heap := Function.update s.heap c (some { cell with world := world' }) }
      if world'.conn.state = .closing then cell.sfd.map fun fd' => goes w (.closing fd' c) s'
      else if stops world e then some (goes w (.updating fd c) s')
      else some (goes w (.driving fd c) s')
    | _, _ => none
  | .accepted fd c sfd, .conn d rbuf sent =>
    match connNew s sfd d rbuf sent with
    | some (cell, freeconns) =>
      some (goes w (.filled fd c sfd d) { s with
        heap := Function.update s.heap d (some cell)
        freeconns := freeconns })
    | none => none
  -- `fcntl` or `calloc` fails
  | .accepted fd c sfd, .fails => some (goes w (.rejected fd c sfd) s)
  | .filled fd c sfd d, .go =>
    if aeSetsize ≤ sfd then some (goes w (.refused fd c sfd d) s)
    else if s.conns sfd = none then
      some (goes w (.adding fd c sfd d) { s with conns := Function.update s.conns sfd (some d) })
    else some (goes w .aborted s)
  | .adding fd c sfd _, .go =>
    some (goes w (.driving fd c) { s with
      watch := Function.update s.watch sfd (api.addEvent (s.watch sfd))
      maxfd := max s.maxfd sfd })
  | .adding fd c sfd d, .fails =>
    if api = .epoll then
      some (goes w (.refused fd c sfd d) { s with conns := Function.update s.conns sfd none })
    else none
  | .refused fd c sfd d, .go => some (goes w (.rejected fd c sfd) { s with freeconns := s.freeconns ++ [d] })
  | .refused fd c sfd d, .fails =>
    some (goes w (.rejected fd c sfd) { s with heap := Function.update s.heap d none })
  | .rejected fd c sfd, .go =>
    some (goes w (.driving fd c) { s with
      watch := Function.update s.watch sfd (api.close (s.watch sfd))
      opened := Function.update s.opened sfd false })
  | .updating fd c, .go =>
    some (goes w (.arming fd c) { s with conns := Function.update s.conns fd (some c) })
  | .arming fd _, .go =>
    match api.updateEvent (s.watch fd) with
    | some watch =>
      some (goes w .waiting { s with watch := Function.update s.watch fd watch, maxfd := max s.maxfd fd })
    | none => none
  | .arming fd c, .fails =>
    match api, s.heap c with
    | .epoll, some cell =>
      cell.sfd.map fun fd' =>
        (goes w (.closing fd' c) { s with conns := Function.update s.conns fd none })
    | _, _ => none
  | .closing fd c, .go =>
    if aeSetsize ≤ fd then some (goes w (.shutting fd c) s)
    else some (goes w (.deleting fd c) { s with conns := Function.update s.conns fd none })
  | .deleting fd c, .go =>
    some (goes w (.shutting fd c) { s with watch := Function.update s.watch fd .out })
  | .shutting fd c, .go =>
    match s.heap c with
    | some cell =>
      some (goes w (.freeing c) { s with
        watch := Function.update s.watch fd (api.close (s.watch fd))
        opened := Function.update s.opened fd false
        heap := Function.update s.heap c (some { cell with sfd := none }) })
    | none => none
  | .freeing c, .go =>
    match s.heap c with
    | some cell =>
      -- `READ_BUFFER_HIGHWAT`
      if 8192 < cell.world.conn.rsize then
        some (goes w .waiting { s with heap := Function.update s.heap c none })
      else some (goes w .waiting { s with freeconns := s.freeconns ++ [c] })
    | none => none
  | .freeing c, .fails => some (goes w .waiting { s with heap := Function.update s.heap c none })
  | _, _ => none

/-- A step of one of `n` workers. -/
def next (api : Api) (n : Nat) (s : Sys) (a : Nat × Choice) : Option Sys :=
  if a.1 < n then workerNext api s a.1 (s.workers a.1) a.2 else none

/-- What `server_socket` has set up, at least one: the listening descriptors with their structures, and what
    else was open before. -/
structure Listeners where
  sockets : List (Nat × Nat)
  listens : sockets ≠ []
  others : List Nat
  fds : (sockets.map Prod.fst).Nodup
  conns : (sockets.map Prod.snd).Nodup
  apart : ∀ p ∈ sockets, p.1 ∉ others
  small : ∀ p ∈ sockets, p.1 < aeSetsize

/-- The `conn` structure of a listening socket: `conn_new(sfd, conn_listening, 1)`. -/
def Cell.listen (sfd : Nat) : Cell := ⟨some sfd, true, [], start [0] Nat.one_pos []⟩

/-- The state `loop_run` begins with. `aeApiCreate` of `select` leaves in `maxfd` what `malloc` has left there. -/
def boot (ls : Listeners) (limit : Nat) (maxfd : Int) : Sys where
  conns fd := (ls.sockets.find? fun p => p.1 == fd).map Prod.snd
  fired := []
  leader := none
  workers _ := .waiting
  opened fd := (ls.sockets.find? fun p => p.1 == fd).isSome || ls.others.contains fd
  watch fd := if (ls.sockets.find? fun p => p.1 == fd).isSome then .armed else .out
  maxfd := ls.sockets.foldr (fun p m => max m p.1) maxfd
  limit := limit
  heap c := (ls.sockets.find? fun p => p.2 == c).map fun p => .listen p.1
  freeconns := []

/-! ## 3. What a step is -/

/-- **A step of a worker**, by where it was. -/
inductive Step (api : Api) (s : Sys) (w : Nat) : Worker → Sys → Prop where
  | lock (hfree : s.leader = none) : Step api s w .waiting (goes w .leading { s with leader := some w })
  | poll (fds : List Nat) (hnil : s.fired = []) (hnodup : fds.Nodup) (harmed : ∀ fd ∈ fds, s.watch fd = .armed) :
      Step api s w .leading { s with
        fired := fds
        watch := fun fd => if fd ∈ fds then api.report (s.watch fd) else s.watch fd }
  | take (fd c : Nat) (hlast : s.fired.getLast? = some fd) (hconn : s.conns fd = some c) :
      Step api s w .leading (goes w (.driving fd c) { s with fired := s.fired.dropLast, leader := none })
  | bug (fd : Nat) (hlast : s.fired.getLast? = some fd) (hconn : s.conns fd = none) :
      Step api s w .leading { s with
        fired := s.fired.dropLast
        watch := Function.update s.watch fd .out
        opened := Function.update s.opened fd false }
  | accept {fd c : Nat} (sfd : Nat) (hshut : s.opened sfd = false) (hlimit : sfd < s.limit) :
      Step api s w (.driving fd c)
        (goes w (.accepted fd c sfd) { s with opened := Function.update s.opened sfd true })
  | stop {fd c : Nat} : Step api s w (.driving fd c) (goes w (.updating fd c) s)
  | call {fd c : Nat} (cell : Cell) (hcell : s.heap c = some cell) (hclient : cell.listening = false) :
      Step api s w (.driving fd c) (goes w (.calling fd c cell.world) s)
  | returned {fd c : Nat} {world : World} (p : Worker) (cell : Cell) (e : Event) (world' : World)
      (hcell : s.heap c = some cell) (hnext : connNext world e = some world')
      (hp : p = .driving fd c ∨ p = .updating fd c ∨ ∃ fd', cell.sfd = some fd' ∧ p = .closing fd' c) :
      Step api s w (.calling fd c world)
        (goes w p { s with heap := Function.update s.heap c (some { cell with world := world' }) })
  | reused {fd c sfd : Nat} (d : Nat) (cell : Cell) (sent : Bytes) (hlast : s.freeconns.getLast? = some d)
      (hcell : s.heap d = some cell) :
      Step api s w (.accepted fd c sfd) (goes w (.filled fd c sfd d) { s with
        heap := Function.update s.heap d
          (some (.fresh sfd cell.world.conn.buf.cells cell.world.conn.sized sent))
        freeconns := s.freeconns.dropLast })
  | alloc {fd c sfd : Nat} (d : Nat) (rbuf : Bytes) (hpos : 0 < rbuf.length) (sent : Bytes)
      (hfree : s.freeconns = []) (hnone : s.heap d = none) :
      Step api s w (.accepted fd c sfd) (goes w (.filled fd c sfd d) { s with
        heap := Function.update s.heap d (some (.fresh sfd rbuf hpos sent))
        freeconns := [] })
  | dropped {fd c sfd : Nat} : Step api s w (.accepted fd c sfd) (goes w (.rejected fd c sfd) s)
  | large {fd c sfd d : Nat} : Step api s w (.filled fd c sfd d) (goes w (.refused fd c sfd d) s)
  | register {fd c sfd d : Nat} (hsmall : sfd < aeSetsize) (hnone : s.conns sfd = none) :
      Step api s w (.filled fd c sfd d)
        (goes w (.adding fd c sfd d) { s with conns := Function.update s.conns sfd (some d) })
  | abort {fd c sfd d : Nat} (hsome : s.conns sfd ≠ none) : Step api s w (.filled fd c sfd d) (goes w .aborted s)
  | added {fd c sfd d : Nat} :
      Step api s w (.adding fd c sfd d)
        (goes w (.driving fd c) { s with
          watch := Function.update s.watch sfd (api.addEvent (s.watch sfd))
          maxfd := max s.maxfd sfd })
  | notAdded {fd c sfd d : Nat} :
      Step api s w (.adding fd c sfd d)
        (goes w (.refused fd c sfd d) { s with conns := Function.update s.conns sfd none })
  | putBack {fd c sfd d : Nat} :
      Step api s w (.refused fd c sfd d)
        (goes w (.rejected fd c sfd) { s with freeconns := s.freeconns ++ [d] })
  | freed {fd c sfd d : Nat} :
      Step api s w (.refused fd c sfd d)
        (goes w (.rejected fd c sfd) { s with heap := Function.update s.heap d none })
  | shut {fd c sfd : Nat} :
      Step api s w (.rejected fd c sfd) (goes w (.driving fd c) { s with
        watch := Function.update s.watch sfd (api.close (s.watch sfd))
        opened := Function.update s.opened sfd false })
  | update {fd c : Nat} :
      Step api s w (.updating fd c)
        (goes w (.arming fd c) { s with conns := Function.update s.conns fd (some c) })
  | armed {fd c : Nat} (watch : Watch) (hwatch : api.updateEvent (s.watch fd) = some watch) :
      Step api s w (.arming fd c)
        (goes w .waiting { s with watch := Function.update s.watch fd watch, maxfd := max s.maxfd fd })
  | notArmed {fd c : Nat} (cell : Cell) (fd' : Nat) (hcell : s.heap c = some cell) (hsfd : cell.sfd = some fd') :
      Step api s w (.arming fd c)
        (goes w (.closing fd' c) { s with conns := Function.update s.conns fd none })
  | tooLarge {fd c : Nat} (hlarge : aeSetsize ≤ fd) : Step api s w (.closing fd c) (goes w (.shutting fd c) s)
  | delete {fd c : Nat} :
      Step api s w (.closing fd c)
        (goes w (.deleting fd c) { s with conns := Function.update s.conns fd none })
  | deleted {fd c : Nat} :
      Step api s w (.deleting fd c)
        (goes w (.shutting fd c) { s with watch := Function.update s.watch fd .out })
  | close {fd c : Nat} (cell : Cell) (hcell : s.heap c = some cell) :
      Step api s w (.shutting fd c) (goes w (.freeing c) { s with
        watch := Function.update s.watch fd (api.close (s.watch fd))
        opened := Function.update s.opened fd false
        heap := Function.update s.heap c (some { cell with sfd := none }) })
  | pooled {c : Nat} : Step api s w (.freeing c) (goes w .waiting { s with freeconns := s.freeconns ++ [c] })
  | gone {c : Nat} :
      Step api s w (.freeing c) (goes w .waiting { s with heap := Function.update s.heap c none })

theorem connNew_cases {s : Sys} {sfd d : Nat} {rbuf sent : Bytes} {cell : Cell} {freeconns : List Nat}
    (h : connNew s sfd d rbuf sent = some (cell, freeconns)) :
    (∃ old, s.freeconns.getLast? = some d ∧ s.heap d = some old ∧ freeconns = s.freeconns.dropLast ∧
      cell = .fresh sfd old.world.conn.buf.cells old.world.conn.sized sent) ∨
    (s.freeconns = [] ∧ s.heap d = none ∧ freeconns = [] ∧ ∃ hpos, cell = .fresh sfd rbuf hpos sent) := by
  unfold connNew at h
  split at h
  · rename_i d' old hlast hold
    split at h
    · rename_i heq
      cases heq
      cases h
      exact .inl ⟨old, hlast, hold, rfl, rfl⟩
    · cases h
  · rename_i hlast hnone
    split at h
    · cases h
      exact .inr ⟨List.getLast?_eq_none_iff.mp hlast, hnone, rfl, _, rfl⟩
    · cases h
  · cases h

theorem workerNext_step {api : Api} {s s' : Sys} {w : Nat} {p : Worker} {a : Choice}
    (h : workerNext api s w p a = some s') : Step api s w p s' := by
  revert h
  fun_cases workerNext api s w p a
  all_goals intro h
  -- what is not possible there
  any_goals (cases h; done)
  · cases h
    exact .lock ‹_›
  · rename_i hready
    cases h
    exact .poll _ hready.1 hready.2.1 fun fd hfd => (hready.2.2 fd hfd).1
  · cases h
    exact .take _ _ ‹_› ‹_›
  · cases h
    exact .bug _ ‹_› ‹_›
  · rename_i hopened
    cases h
    exact .accept _ hopened.2.1 hopened.2.2
  · cases h
    exact .stop
  · rename_i hclient
    cases h
    exact .call _ ‹_› (Bool.eq_false_iff.mpr hclient)
  · obtain ⟨fd', hsfd, rfl⟩ := Option.map_eq_some_iff.mp h
    exact .returned _ _ _ _ ‹_› ‹_› (.inr (.inr ⟨fd', hsfd, rfl⟩))
  · cases h
    exact .returned _ _ _ _ ‹_› ‹_› (.inr (.inl rfl))
  · cases h
    exact .returned _ _ _ _ ‹_› ‹_› (.inl rfl)
  · rename_i hnew
    cases h
    obtain ⟨old, hlast, hold, rfl, rfl⟩ | ⟨hnil, hnone, rfl, hpos, rfl⟩ := connNew_cases hnew
    · exact .reused _ old _ hlast hold
    · exact .alloc _ _ hpos _ hnil hnone
  · cases h
    exact .dropped
  · cases h
    exact .large
  · rename_i hsmall hnone
    cases h
    exact .register (Nat.lt_of_not_le hsmall) hnone
  · cases h
    exact .abort ‹_›
  · cases h
    exact .added
  · cases h
    exact .notAdded
  · cases h
    exact .putBack
  · cases h
    exact .freed
  · cases h
    exact .shut
  · cases h
    exact .update
  · cases h
    exact .armed _ ‹_›
  · obtain ⟨fd', hsfd, rfl⟩ := Option.map_eq_some_iff.mp h
    exact .notArmed _ fd' ‹_› hsfd
  · cases h
    exact .tooLarge ‹_›
  · cases h
    exact .delete
  · cases h
    exact .deleted
  · cases h
    exact .close _ ‹_›
  · cases h
    exact .gone
  · cases h
    exact .pooled
  · cases h
    exact .gone

end SmartHome.Dserver.Workers
