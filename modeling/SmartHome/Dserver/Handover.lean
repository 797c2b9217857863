/-
  Subject:   WHO MAY TOUCH A CONNECTION: the workers of dserver hand descriptors and connections over.

  A descriptor that is registered lies in the poll set, then among those reported, then with the worker that
  took it, and back; its `conn` structure goes with it, or lies in the free list. With `epoll` a reported
  descriptor is silent until it is armed again. With `select` it is not, and then it takes a single worker
  for the next poll to come only after the last descriptor was dealt with.

  * `Res`, `Worker.holds`, `Slot`, `Pool`, `sharing` -- what is held, by whom, and what the holder relies on;
  * `Lists`, `Lock`, `Inv` -- the invariant; `inv_step` -- every step keeps it;
  * `Safe`, **`workers_safe_iff`** -- the workers are safe exactly with `epoll`, or when there is one (and, with
    `select`, all descriptors are in an `fd_set`); **`select_beyond_sets`** -- they may be larger;
  * **`workers_sequential`** -- then a connection is what `drive_machine` alone makes of it;
  * **`select_used_after_free`** -- else a worker can drive a connection that another has given back.
-/
import Mathlib.Data.List.Nodup
import Mathlib.Data.Set.Finite.Basic
import SmartHome.Dserver.Workers

namespace SmartHome.Dserver.Workers

open SmartHome.Lib

/-! ## 1. What is held -/

/-- What the workers share: descriptors, each with its entries in the table and in the poll set, and `conn`
    structures. -/
inductive Res where
  | fd (fd : Nat)
  | conn (c : Nat)
  deriving DecidableEq

/-- What a worker holds. -/
def Worker.holds : Worker → List Res
  | .waiting | .leading | .aborted => []
  | .driving fd c | .calling fd c _ | .updating fd c | .arming fd c | .closing fd c | .deleting fd c
  | .shutting fd c => [.fd fd, .conn c]
  | .accepted fd c sfd | .rejected fd c sfd => [.fd fd, .conn c, .fd sfd]
  | .filled fd c sfd d | .adding fd c sfd d | .refused fd c sfd d => [.fd fd, .conn c, .fd sfd, .conn d]
  | .freeing c => [.conn c]

/-- Where a descriptor is that no worker holds: closed, open but not for the loop, in the poll set with its
    connection, or reported with it. -/
inductive Slot where
  | shut
  | system
  | kernel (c : Nat)
  | queued (c : Nat)
  | away

/-- Where a `conn` structure is: not allocated, in the free list, or elsewhere. -/
inductive Pool where
  | unallocated
  | free
  | away

/-- A connection is as far as `drive_machine` alone brings it, with what its client sends. -/
def Cell.Sequential (cell : Cell) : Prop :=
  cell.listening = false →
    ∃ (cells : Bytes) (h : 0 < cells.length),
      Reaches connNext (fun _ _ => True) (start cells h cell.sent) cell.world

/-- The entries of a descriptor. -/
def Sys.FdIs (s : Sys) (fd : Nat) (c : Option Nat) (watch : Watch) (opened : Bool) : Prop :=
  s.conns fd = c ∧ s.watch fd = watch ∧ s.opened fd = opened

/-- The structure `c` is allocated. -/
def Sys.Allocated (s : Sys) (c : Nat) : Prop := ∃ cell, s.heap c = some cell ∧ cell.Sequential

/-- The structure `c` is set up for `fd`. -/
def Sys.Keeps (s : Sys) (c fd : Nat) : Prop := ∃ cell, s.heap c = some cell ∧ cell.sfd = some fd ∧ cell.Sequential

/-- `fd` is registered with `c`, and silent or about to be dealt with. -/
def Sys.Drives (s : Sys) (watch : Watch) (fd c : Nat) : Prop :=
  fd < aeSetsize ∧ s.FdIs fd (some c) watch true ∧ s.Keeps c fd

/-- What a worker relies on. -/
def Worker.Ok (api : Api) (s : Sys) : Worker → Prop
  | .waiting | .leading => True
  | .aborted => False
  | .driving fd c | .updating fd c | .arming fd c => s.Drives api.reported fd c
  | .calling fd c world =>
    s.Drives api.reported fd c ∧ ∃ cell, s.heap c = some cell ∧ cell.listening = false ∧ cell.world = world
  | .accepted fd c sfd | .rejected fd c sfd => s.Drives api.reported fd c ∧ s.FdIs sfd none .out true
  | .filled fd c sfd d | .refused fd c sfd d =>
    s.Drives api.reported fd c ∧ s.FdIs sfd none .out true ∧ s.Keeps d sfd
  | .adding fd c sfd d =>
    s.Drives api.reported fd c ∧ s.Drives .out sfd d
  | .closing fd c => fd < aeSetsize ∧ (∃ o, s.FdIs fd o api.reported true) ∧ s.Keeps c fd
  | .deleting fd c => s.FdIs fd none api.reported true ∧ s.Keeps c fd
  | .shutting fd c => s.FdIs fd none .out true ∧ s.Keeps c fd
  | .freeing c => s.Allocated c

/-- Who may hold something. -/
inductive Agent where
  | worker (w : Nat)
  | slot (fd : Nat)
  | pool (c : Nat)
  deriving DecidableEq

/-- What it is doing. -/
inductive Part where
  | worker (p : Worker)
  | slot (fd : Nat) (x : Slot)
  | pool (c : Nat) (x : Pool)

def Part.holds : Part → List Res
  | .worker p => p.holds
  | .slot fd .shut | .slot fd .system => [.fd fd]
  | .slot fd (.kernel c) | .slot fd (.queued c) => [.fd fd, .conn c]
  | .slot _ .away => []
  | .pool c .unallocated | .pool c .free => [.conn c]
  | .pool _ .away => []

def Part.Ok (api : Api) (s : Sys) : Part → Prop
  | .worker p => p.Ok api s
  | .slot fd .shut => s.FdIs fd none .out false
  | .slot fd .system => s.FdIs fd none .out true
  | .slot fd (.kernel c) => s.Drives .armed fd c
  | .slot fd (.queued c) => s.Drives api.reported fd c
  | .slot _ .away => True
  | .pool c .unallocated => s.heap c = none
  | .pool c .free => s.Allocated c
  | .pool _ .away => True

/-- The contents of what is shared are the same. -/
def Agree (s s' : Sys) : Res → Prop
  | .fd fd => s'.conns fd = s.conns fd ∧ s'.watch fd = s.watch fd ∧ s'.opened fd = s.opened fd
  | .conn c => s'.heap c = s.heap c

section Frame

variable {s s' : Sys} {fd c : Nat}

theorem Sys.FdIs.frame (h : Agree s s' (.fd fd)) {o : Option Nat} {watch : Watch} {opened : Bool}
    (hs : s.FdIs fd o watch opened) : s'.FdIs fd o watch opened :=
  ⟨h.1.trans hs.1, h.2.1.trans hs.2.1, h.2.2.trans hs.2.2⟩

theorem Sys.Keeps.frame (h : Agree s s' (.conn c)) (hs : s.Keeps c fd) : s'.Keeps c fd := by
  obtain ⟨cell, hcell, hs⟩ := hs
  exact ⟨cell, h.trans hcell, hs⟩

theorem Sys.Drives.frame {watch : Watch} (hfd : Agree s s' (.fd fd)) (hc : Agree s s' (.conn c))
    (hs : s.Drives watch fd c) : s'.Drives watch fd c :=
  ⟨hs.1, hs.2.1.frame hfd, hs.2.2.frame hc⟩

theorem exists_cell_frame {q : Cell → Prop} (h : Agree s s' (.conn c)) (hs : ∃ cell, s.heap c = some cell ∧ q cell) :
    ∃ cell, s'.heap c = some cell ∧ q cell := by
  obtain ⟨cell, hcell, hs⟩ := hs
  exact ⟨cell, h.trans hcell, hs⟩

end Frame

theorem Worker.Ok.frame {api : Api} {s s' : Sys} {p : Worker} (h : ∀ r ∈ p.holds, Agree s s' r) (hs : p.Ok api s) :
    p.Ok api s' := by
  cases p <;> simp only [Worker.holds, List.forall_mem_cons] at h
  case waiting | leading => trivial
  case aborted => exact hs
  case driving | updating | arming => exact Sys.Drives.frame h.1 h.2.1 hs
  case calling => exact ⟨Sys.Drives.frame h.1 h.2.1 hs.1, exists_cell_frame h.2.1 hs.2⟩
  case accepted | rejected => exact ⟨Sys.Drives.frame h.1 h.2.1 hs.1, Sys.FdIs.frame h.2.2.1 hs.2⟩
  case filled | refused =>
    exact ⟨Sys.Drives.frame h.1 h.2.1 hs.1, Sys.FdIs.frame h.2.2.1 hs.2.1, Sys.Keeps.frame h.2.2.2.1 hs.2.2⟩
  case adding => exact ⟨Sys.Drives.frame h.1 h.2.1 hs.1, Sys.Drives.frame h.2.2.1 h.2.2.2.1 hs.2⟩
  case closing =>
    obtain ⟨hsmall, ⟨o, ho⟩, hkeeps⟩ := hs
    exact ⟨hsmall, ⟨o, Sys.FdIs.frame h.1 ho⟩, Sys.Keeps.frame h.2.1 hkeeps⟩
  case deleting | shutting => exact ⟨Sys.FdIs.frame h.1 hs.1, Sys.Keeps.frame h.2.1 hs.2⟩
  case freeing => exact exists_cell_frame h.1 hs

theorem Part.Ok.frame {api : Api} {s s' : Sys} {l : Part} (h : ∀ r ∈ l.holds, Agree s s' r) (hs : l.Ok api s) :
    l.Ok api s' := by
  cases l with
  | worker p => exact Worker.Ok.frame h hs
  | slot fd x =>
    cases x <;> simp only [Part.holds, List.forall_mem_cons] at h
    case shut | system => exact Sys.FdIs.frame h.1 hs
    case kernel | queued => exact Sys.Drives.frame h.1 h.2.1 hs
    case away => trivial
  | pool c x =>
    cases x <;> simp only [Part.holds, List.forall_mem_cons] at h
    case unallocated => exact h.1.trans hs
    case free => exact exists_cell_frame h.1 hs
    case away => trivial

/-- **How the memory is shared.** -/
def sharing (api : Api) : Sharing Res Part Sys where
  holds := Part.holds
  agree r s s' := Agree s s' r
  ok l s := l.Ok api s
  frame := Part.Ok.frame

/-- What everyone is doing. -/
def parts (workers : Nat → Worker) (slot : Nat → Slot) (pool : Nat → Pool) : Agent → Part
  | .worker w => .worker (workers w)
  | .slot fd => .slot fd (slot fd)
  | .pool c => .pool c (pool c)

/-! ## 2. The invariant -/

/-- The list is that of the `x` with `q x`, each once. -/
def Lists (l : List Nat) (q : Nat → Prop) : Prop := l.Nodup ∧ ∀ x, x ∈ l ↔ q x

section Lists

variable {l : List Nat} {q q' : Nat → Prop} {x : Nat}

theorem Lists.congr (h : Lists l q) (hq : ∀ y, q' y ↔ q y) : Lists l q' :=
  ⟨h.1, fun y => (h.2 y).trans (hq y).symm⟩

theorem Lists.dropLast (h : Lists l q) (hx : l.getLast? = some x) (hq : ∀ y, q' y ↔ q y ∧ y ≠ x) :
    Lists l.dropLast q' := by
  have hl : l.dropLast ++ [x] = l := List.dropLast_append_getLast? x hx
  have hnodup := h.1
  rw [← hl, List.nodup_append] at hnodup
  refine ⟨hnodup.1, fun y => ?_⟩
  rw [hq y, ← h.2 y]
  refine ⟨fun hy => ⟨List.dropLast_subset l hy, hnodup.2.2 y hy x (List.mem_singleton_self x)⟩, ?_⟩
  rintro ⟨hy, hne⟩
  rw [← hl] at hy
  obtain hy | hy := List.mem_append.mp hy
  · exact hy
  · exact absurd (List.mem_singleton.mp hy) hne

theorem Lists.push (h : Lists l q) (hx : ¬ q x) (hq : ∀ y, q' y ↔ q y ∨ y = x) : Lists (l ++ [x]) q' := by
  refine ⟨?_, fun y => ?_⟩
  · rw [List.nodup_append]
    refine ⟨h.1, List.pairwise_singleton _ x, ?_⟩
    rintro y hy z hz rfl
    exact hx (List.mem_singleton.mp hz ▸ (h.2 y).mp hy)
  · rw [List.mem_append, List.mem_singleton, hq y, h.2 y]

end Lists

/-- The leader is the one who leads, and there are `n` workers. -/
def Lock (n : Nat) (workers : Nat → Worker) (leader : Option Nat) : Prop :=
  (∀ w, workers w = .leading ↔ leader = some w) ∧ ∀ w, n ≤ w → workers w = .waiting

/-- **The invariant**: who holds what, and the lists that say so. -/
structure Inv (api : Api) (n : Nat) (s : Sys) (slot : Nat → Slot) (pool : Nat → Pool) : Prop where
  owned : Owned (sharing api) (parts s.workers slot pool) s
  fired : Lists s.fired fun fd => ∃ c, slot fd = .queued c
  free : Lists s.freeconns fun c => pool c = .free
  lock : Lock n s.workers s.leader

section Rules

variable {api : Api} {n w : Nat} {s s' : Sys} {slot slot' : Nat → Slot} {pool pool' : Nat → Pool} {p p' : Worker}

theorem Inv.worker_ok (h : Inv api n s slot pool) (hp : s.workers w = p) : p.Ok api s := by
  have hok := h.owned.ok (.worker w)
  rw [parts, hp] at hok
  exact hok

theorem Inv.slot_ok (h : Inv api n s slot pool) {fd : Nat} {x : Slot} (hx : slot fd = x) :
    (Part.slot fd x).Ok api s := by
  have hok := h.owned.ok (.slot fd)
  rw [parts, hx] at hok
  exact hok

theorem Inv.pool_ok (h : Inv api n s slot pool) {c : Nat} {x : Pool} (hx : pool c = x) : (Part.pool c x).Ok api s := by
  have hok := h.owned.ok (.pool c)
  rw [parts, hx] at hok
  exact hok

/-- A worker goes on without the lock. -/
theorem Lock.goes {workers : Nat → Worker} {leader : Option Nat} (h : Lock n workers leader) (hw : w < n)
    (hp : workers w = p) (hlead : p ≠ .leading) (hlead' : p' ≠ .leading) :
    Lock n (Function.update workers w p') leader := by
  refine ⟨fun v => ?_, fun v hv => ?_⟩
  · rw [← h.1 v]
    by_cases hv : v = w
    · subst hv
      rw [Function.update_self, hp]
      exact iff_of_false hlead' hlead
    · rw [Function.update_of_ne hv]
  · rw [Function.update_of_ne (by omega)]
    exact h.2 v hv

/-- A worker goes on with what it holds. -/
theorem Inv.alter (h : Inv api n s slot pool) (hw : w < n) (hp : s.workers w = p) (hlead : p ≠ .leading)
    (hlead' : p' ≠ .leading) (hworkers : s'.workers = Function.update s.workers w p') (hfired : s'.fired = s.fired)
    (hfree : s'.freeconns = s.freeconns) (hleader : s'.leader = s.leader)
    (hmem : ∀ r, r ∉ p.holds → Agree s s' r) (hholds : p'.holds = p.holds) (hok : p'.Ok api s') :
    ∃ slot pool, Inv api n s' slot pool := by
  refine ⟨slot, pool, ?_, hfired ▸ h.fired, hfree ▸ h.free, ?_⟩
  · refine h.owned.alter (.worker w) ?_ ?_ ?_ ?_
    · intro k hk
      cases k with
      | worker v => simp only [parts, hworkers, Function.update_of_ne (fun e => hk (congrArg Agent.worker e))]
      | slot | pool => rfl
    · simp only [parts, hp]
      exact hmem
    · simp only [parts, hp, hworkers, Function.update_self]
      intro r
      exact iff_of_eq (congrArg (r ∈ ·) hholds)
    · simp only [parts, hworkers, Function.update_self]
      exact hok
  · rw [hworkers, hleader]
    exact h.lock.goes hw hp hlead hlead'

/-- A worker exchanges something with another agent. -/
theorem Inv.give (h : Inv api n s slot pool) (hp : s.workers w = p) (hp' : s'.workers w = p') (j : Agent)
    (hout : ∀ k, k ≠ .worker w → k ≠ j → parts s'.workers slot' pool' k = parts s.workers slot pool k) {l l' : Part}
    (hl : parts s.workers slot pool j = l) (hl' : parts s'.workers slot' pool' j = l')
    (hmem : ∀ r, r ∉ p.holds → r ∉ l.holds → Agree s s' r)
    (hholds : ∀ r, r ∈ p'.holds ∨ r ∈ l'.holds ↔ r ∈ p.holds ∨ r ∈ l.holds)
    (hapart : ∀ r, r ∈ p'.holds → r ∉ l'.holds) (hok : p'.Ok api s') (hok' : l'.Ok api s') :
    Owned (sharing api) (parts s'.workers slot' pool') s' := by
  have hthis : parts s.workers slot pool (.worker w) = .worker p := congrArg Part.worker hp
  have hthis' : parts s'.workers slot' pool' (.worker w) = .worker p' := congrArg Part.worker hp'
  refine h.owned.give (.worker w) j hout ?_ ?_ ?_ ?_ ?_
  · rw [hthis, hl]
    exact hmem
  · rw [hthis, hl, hthis', hl']
    exact hholds
  · rw [hthis', hl']
    exact hapart
  · rw [hthis']
    exact hok
  · rw [hl']
    exact hok'

/-- A worker takes a descriptor, or gives one. -/
theorem Inv.giveSlot (h : Inv api n s slot pool) (hp : s.workers w = p) (fd : Nat) {x : Slot} (hx : slot fd = x)
    (x' : Slot) (hworkers : s'.workers = Function.update s.workers w p')
    (hmem : ∀ r, r ∉ p.holds → r ∉ (Part.slot fd x).holds → Agree s s' r)
    (hholds : ∀ r, r ∈ p'.holds ∨ r ∈ (Part.slot fd x').holds ↔ r ∈ p.holds ∨ r ∈ (Part.slot fd x).holds)
    (hapart : ∀ r, r ∈ p'.holds → r ∉ (Part.slot fd x').holds) (hok : p'.Ok api s')
    (hok' : (Part.slot fd x').Ok api s') :
    Owned (sharing api) (parts s'.workers (Function.update slot fd x') pool) s' := by
  refine h.give hp (by rw [hworkers, Function.update_self]) (.slot fd) ?_ (congrArg (Part.slot fd) hx)
    (congrArg (Part.slot fd) (Function.update_self ..)) hmem hholds hapart hok hok'
  intro k hk hk'
  cases k with
  | worker v => simp only [parts, hworkers, Function.update_of_ne (fun e => hk (congrArg Agent.worker e))]
  | slot v => simp only [parts, Function.update_of_ne (fun e => hk' (congrArg Agent.slot e))]
  | pool => rfl

/-- A worker takes a `conn` structure, or gives one. -/
theorem Inv.givePool (h : Inv api n s slot pool) (hp : s.workers w = p) (c : Nat) {x : Pool} (hx : pool c = x)
    (x' : Pool) (hworkers : s'.workers = Function.update s.workers w p')
    (hmem : ∀ r, r ∉ p.holds → r ∉ (Part.pool c x).holds → Agree s s' r)
    (hholds : ∀ r, r ∈ p'.holds ∨ r ∈ (Part.pool c x').holds ↔ r ∈ p.holds ∨ r ∈ (Part.pool c x).holds)
    (hapart : ∀ r, r ∈ p'.holds → r ∉ (Part.pool c x').holds) (hok : p'.Ok api s')
    (hok' : (Part.pool c x').Ok api s') :
    Owned (sharing api) (parts s'.workers slot (Function.update pool c x')) s' := by
  refine h.give hp (by rw [hworkers, Function.update_self]) (.pool c) ?_ (congrArg (Part.pool c) hx)
    (congrArg (Part.pool c) (Function.update_self ..)) hmem hholds hapart hok hok'
  intro k hk hk'
  cases k with
  | worker v => simp only [parts, hworkers, Function.update_of_ne (fun e => hk (congrArg Agent.worker e))]
  | slot => rfl
  | pool v => simp only [parts, Function.update_of_ne (fun e => hk' (congrArg Agent.pool e))]

end Rules

/-! ## 3. What the holders rely on -/

section Held

variable {api : Api} {n w fd c : Nat} {s s' : Sys} {slot slot' : Nat → Slot} {pool pool' : Nat → Pool} {p p' : Worker}

/-- A descriptor that a worker holds is open, and silent unless it was reported and stays armed. -/
theorem Worker.Ok.held_fd (h : p.Ok api s) (hfd : Res.fd fd ∈ p.holds) :
    s.opened fd = true ∧ (s.watch fd = .out ∨ s.watch fd = api.reported) := by
  cases p <;>
    simp only [Worker.holds, List.mem_cons, Res.fd.injEq, reduceCtorEq, List.not_mem_nil, or_false, false_or] at hfd
  case driving | updating | arming => exact hfd ▸ ⟨h.2.1.2.2, .inr h.2.1.2.1⟩
  case calling => exact hfd ▸ ⟨h.1.2.1.2.2, .inr h.1.2.1.2.1⟩
  case accepted | rejected =>
    obtain rfl | rfl := hfd
    · exact ⟨h.1.2.1.2.2, .inr h.1.2.1.2.1⟩
    · exact ⟨h.2.2.2, .inl h.2.2.1⟩
  case filled | refused =>
    obtain rfl | rfl := hfd
    · exact ⟨h.1.2.1.2.2, .inr h.1.2.1.2.1⟩
    · exact ⟨h.2.1.2.2, .inl h.2.1.2.1⟩
  case adding =>
    obtain rfl | rfl := hfd
    · exact ⟨h.1.2.1.2.2, .inr h.1.2.1.2.1⟩
    · exact ⟨h.2.2.1.2.2, .inl h.2.2.1.2.1⟩
  case closing =>
    obtain ⟨-, ⟨o, ho⟩, -⟩ := h
    exact hfd ▸ ⟨ho.2.2, .inr ho.2.1⟩
  case deleting => exact hfd ▸ ⟨h.1.2.2, .inr h.1.2.1⟩
  case shutting => exact hfd ▸ ⟨h.1.2.2, .inl h.1.2.1⟩

theorem Sys.Keeps.allocated (h : s.Keeps c fd) : s.Allocated c := by
  obtain ⟨cell, hcell, -, hseq⟩ := h
  exact ⟨cell, hcell, hseq⟩

/-- A structure that a worker holds is allocated. -/
theorem Worker.Ok.held_conn (h : p.Ok api s) (hc : Res.conn c ∈ p.holds) : s.Allocated c := by
  cases p <;>
    simp only [Worker.holds, List.mem_cons, Res.conn.injEq, reduceCtorEq, List.not_mem_nil, or_false, false_or] at hc
  case driving | updating | arming | closing => exact hc ▸ h.2.2.allocated
  case calling | accepted | rejected => exact hc ▸ h.1.2.2.allocated
  case filled | refused =>
    obtain rfl | rfl := hc
    · exact h.1.2.2.allocated
    · exact h.2.2.allocated
  case adding =>
    obtain rfl | rfl := hc
    · exact h.1.2.2.allocated
    · exact h.2.2.2.allocated
  case deleting | shutting => exact hc ▸ h.2.allocated
  case freeing => exact hc ▸ h

/-- A slot holds its own descriptor, unless someone else does. -/
theorem Slot.fd_mem {x : Slot} {fd' : Nat} : Res.fd fd ∈ (Part.slot fd' x).holds ↔ fd = fd' ∧ x ≠ .away := by
  cases x <;> simp [Part.holds]

theorem Pool.fd_not_mem {x : Pool} : Res.fd fd ∉ (Part.pool c x).holds := by
  cases x <;> simp [Part.holds]

theorem Pool.conn_mem {x : Pool} {c' : Nat} : Res.conn c ∈ (Part.pool c' x).holds ↔ c = c' ∧ x ≠ .away := by
  cases x <;> simp [Part.holds]

variable (h : Inv api n s slot pool)

include h

/-- What a worker holds is nowhere else. -/
theorem Inv.slot_away (hfd : Res.fd fd ∈ (s.workers w).holds) : slot fd = .away := by
  by_contra hne
  have := h.owned.alone (i := .worker w) (j := .slot fd) hfd (Slot.fd_mem.mpr ⟨rfl, hne⟩)
  cases this

theorem Inv.pool_away (hc : Res.conn c ∈ (s.workers w).holds) : pool c = .away := by
  by_contra hne
  have := h.owned.alone (i := .worker w) (j := .pool c) hc (Pool.conn_mem.mpr ⟨rfl, hne⟩)
  cases this

/-- Someone has the descriptor: a worker, or its slot. -/
theorem Inv.fd_held (fd : Nat) :
    slot fd ≠ .away ∨ ∃ w, Res.fd fd ∈ (s.workers w).holds := by
  obtain ⟨i, hi⟩ := h.owned.held (.fd fd)
  cases i with
  | worker w => exact .inr ⟨w, hi⟩
  | slot fd' =>
    obtain ⟨rfl, hne⟩ := Slot.fd_mem.mp hi
    exact .inl hne
  | pool c => exact absurd hi Pool.fd_not_mem

/-- A closed descriptor is in its slot. -/
theorem Inv.slot_shut (hshut : s.opened fd = false) : slot fd = .shut := by
  obtain hne | ⟨w, hw⟩ := h.fd_held fd
  · cases hx : slot fd with
    | shut => rfl
    | system => exact Bool.noConfusion (hshut.symm.trans (h.slot_ok hx).2.2)
    | kernel | queued => exact Bool.noConfusion (hshut.symm.trans (h.slot_ok hx).2.1.2.2)
    | away => exact absurd hx hne
  · exact Bool.noConfusion (hshut.symm.trans (Worker.Ok.held_fd (h.worker_ok rfl) hw).1)

/-- A structure is in the pool, or allocated and with someone. -/
theorem Inv.conn_held (c : Nat) : pool c = .unallocated ∨ s.Allocated c := by
  obtain ⟨i, hi⟩ := h.owned.held (.conn c)
  cases i with
  | worker w => exact .inr (Worker.Ok.held_conn (h.worker_ok rfl) hi)
  | slot fd =>
    simp only [sharing, parts] at hi
    cases hx : slot fd with
    | shut | system | away => simp [hx, Part.holds] at hi
    | kernel d | queued d =>
      obtain rfl : c = d := by simpa [hx, Part.holds] using hi
      exact .inr (h.slot_ok hx).2.2.allocated
  | pool d =>
    obtain ⟨rfl, hne⟩ := Pool.conn_mem.mp hi
    cases hx : pool c with
    | unallocated => exact .inl rfl
    | free => exact .inr (h.pool_ok hx)
    | away => exact absurd hx hne

theorem Inv.pool_unallocated (hnone : s.heap c = none) : pool c = .unallocated := by
  refine (h.conn_held c).resolve_right ?_
  rintro ⟨cell, hcell, -⟩
  cases hnone.symm.trans hcell

end Held

/-! ## 4. The steps -/

section Steps

variable {api : Api} {n w fd c sfd d : Nat} {s s' : Sys} {slot slot' : Nat → Slot} {pool pool' : Nat → Pool}

theorem inv_lock (h : Inv api n s slot pool) (hw : w < n) (hp : s.workers w = .waiting) (hfree : s.leader = none) :
    Inv api n (goes w .leading { s with leader := some w }) slot pool := by
  refine ⟨?_, h.fired, h.free, ?_, ?_⟩
  · refine h.owned.alter (.worker w) ?_ ?_ ?_ ?_
    · intro k hk
      cases k with
      | worker v => simp only [parts, goes, Function.update_of_ne (fun e => hk (congrArg Agent.worker e))]
      | slot | pool => rfl
    · rintro (x | x) - <;> simp [sharing, Agree, goes]
    · simp [sharing, parts, Part.holds, Worker.holds, goes, hp]
    · simp [sharing, parts, Part.Ok, Worker.Ok, goes]
  · intro v
    by_cases hv : v = w
    · simp [goes, hv]
    · have hlead := h.lock.1 v
      rw [hfree] at hlead
      simp [goes, Function.update_of_ne hv, hlead, Ne.symm hv]
  · intro v hv
    simp only [goes, Function.update_of_ne (show v ≠ w by omega)]
    exact h.lock.2 v hv

/-- The descriptor that the leader takes. -/
theorem inv_take (h : Inv api n s slot pool) (hw : w < n) (hp : s.workers w = .leading)
    (hlast : s.fired.getLast? = some fd) (hconn : s.conns fd = some c) :
    Inv api n (goes w (.driving fd c) { s with fired := s.fired.dropLast, leader := none })
      (Function.update slot fd .away) pool := by
  obtain ⟨c', hx⟩ := (h.fired.2 fd).mp (List.mem_of_getLast? hlast)
  have hok := h.slot_ok hx
  obtain rfl : c' = c := Option.some.inj (hok.2.1.1.symm.trans hconn)
  refine ⟨?_, h.fired.dropLast hlast ?_, h.free, ?_, ?_⟩
  · refine h.giveSlot hp fd hx .away rfl ?_ ?_ ?_ hok trivial
    · rintro (x | x) - - <;> simp [Agree, goes]
    · simp [Worker.holds, Part.holds]
    · simp [Part.holds]
  · intro x
    by_cases hx : x = fd <;> simp [hx]
  · intro v
    by_cases hv : v = w
    · simp [goes, hv]
    · have hlead := h.lock.1 v
      rw [(h.lock.1 w).mp hp] at hlead
      simp [goes, Function.update_of_ne hv, hlead, Ne.symm hv]
  · intro v hv
    simp only [goes, Function.update_of_ne (show v ≠ w by omega)]
    exact h.lock.2 v hv

/-- What can be reported is in the poll set, and nowhere else. -/
theorem Inv.kernel_of_armed (hone : api = .epoll ∨ n ≤ 1) (h : Inv api n s slot pool) (hw : w < n)
    (hp : s.workers w = .leading) (hnil : s.fired = []) (harmed : s.watch fd = .armed) : ∃ c, slot fd = .kernel c := by
  obtain hne | ⟨v, hv⟩ := h.fd_held fd
  · cases hx : slot fd with
    | shut | system => exact Watch.noConfusion (harmed.symm.trans (h.slot_ok hx).2.1)
    | kernel c => exact ⟨c, rfl⟩
    | queued c =>
      have := (h.fired.2 fd).mpr ⟨c, hx⟩
      rw [hnil] at this
      cases this
    | away => exact absurd hx hne
  · obtain rfl | hn := hone
    · -- what was reported by `epoll` is silent
      obtain ⟨-, hwatch | hwatch⟩ := Worker.Ok.held_fd (h.worker_ok rfl) hv
      · exact Watch.noConfusion (harmed.symm.trans hwatch)
      · exact Watch.noConfusion (harmed.symm.trans hwatch)
    · -- the only worker holds the lock, and no descriptor
      by_cases hvw : v = w
      · rw [hvw, hp] at hv
        cases hv
      · rw [h.lock.2 v (by omega)] at hv
        cases hv

/-- A slot whose descriptor is reported. -/
def Slot.report : Slot → Slot
  | .kernel c => .queued c
  | x => x

theorem inv_poll (hone : api = .epoll ∨ n ≤ 1) (h : Inv api n s slot pool) (hw : w < n) (hp : s.workers w = .leading)
    {fds : List Nat} (hnil : s.fired = []) (hnodup : fds.Nodup) (harmed : ∀ fd ∈ fds, s.watch fd = .armed) :
    Inv api n { s with
        fired := fds
        watch := fun fd => if fd ∈ fds then api.report (s.watch fd) else s.watch fd }
      (fun fd => if fd ∈ fds then (slot fd).report else slot fd) pool := by
  have hkernel : ∀ fd ∈ fds, ∃ c, slot fd = .kernel c := fun fd hfd =>
    h.kernel_of_armed hone hw hp hnil (harmed fd hfd)
  have hholds : ∀ fd ∈ fds, (Part.slot fd (slot fd).report).holds = (Part.slot fd (slot fd)).holds := by
    intro fd hfd
    obtain ⟨c, hx⟩ := hkernel fd hfd
    rw [hx]
    rfl
  refine ⟨?_, ⟨hnodup, fun fd => ?_⟩, h.free, h.lock⟩
  · refine h.owned.exchange (fun i => ∃ fd ∈ fds, i = .slot fd) ?_ ?_ ?_ ?_ ?_ ?_
    · intro i hi
      cases i with
      | worker | pool => rfl
      | slot fd => simp only [parts, if_neg (show fd ∉ fds from fun hfd => hi ⟨fd, hfd, rfl⟩)]
    · intro r hr
      cases r with
      | fd fd =>
        have hfd : fd ∉ fds := by
          intro hfd
          obtain ⟨c, hx⟩ := hkernel fd hfd
          exact hr (.slot fd) ⟨fd, hfd, rfl⟩ (by simp [sharing, parts, Part.holds, hx])
        simp [sharing, Agree, hfd]
      | conn c => rfl
    · rintro i r ⟨fd, hfd, rfl⟩ hr
      refine ⟨.slot fd, ⟨fd, hfd, rfl⟩, ?_⟩
      simp only [parts, if_pos hfd, sharing, hholds fd hfd]
      exact hr
    · rintro i r ⟨fd, hfd, rfl⟩ hr
      refine ⟨.slot fd, ⟨fd, hfd, rfl⟩, ?_⟩
      simp only [parts, if_pos hfd, sharing, hholds fd hfd] at hr
      exact hr
    · rintro i j r ⟨fd, hfd, rfl⟩ ⟨fd', hfd', rfl⟩ hr hr'
      simp only [parts, if_pos hfd, if_pos hfd', sharing, hholds fd hfd, hholds fd' hfd'] at hr hr'
      exact h.owned.alone (i := .slot fd) (j := .slot fd') hr hr'
    · rintro i ⟨fd, hfd, rfl⟩
      obtain ⟨c, hx⟩ := hkernel fd hfd
      obtain ⟨hsmall, ⟨hconn, hwatch, hopen⟩, hkeeps⟩ := h.slot_ok hx
      simp only [parts, if_pos hfd, hx, Slot.report]
      refine ⟨hsmall, ⟨hconn, ?_, hopen⟩, hkeeps⟩
      simp only [if_pos hfd, hwatch]
      rfl
  · by_cases hfd : fd ∈ fds
    · obtain ⟨c, hx⟩ := hkernel fd hfd
      simp [hfd, hx, Slot.report]
    · have := h.fired.2 fd
      rw [hnil] at this
      simpa [hfd] using this

/-- What was reported stays so when another descriptor changes hands. -/
theorem Inv.fired_update (h : Inv api n s slot pool) {x x' : Slot} (hx : slot fd = x) (hq : ∀ c, x ≠ .queued c)
    (hq' : ∀ c, x' ≠ .queued c) : Lists s.fired fun y => ∃ c, Function.update slot fd x' y = .queued c := by
  refine h.fired.congr fun y => exists_congr fun c => ?_
  by_cases hy : y = fd
  · rw [hy, Function.update_self, hx]
    exact iff_of_false (hq' c) (hq c)
  · rw [Function.update_of_ne hy]

/-- What was reported is in the poll set. -/
theorem Api.reported_ne_out (api : Api) : api.reported ≠ .out := by
  cases api <;> decide

/-- The two descriptors that a worker holds differ. -/
theorem Sys.Drives.fd_ne {o : Option Nat} {b : Bool} (h : s.Drives api.reported fd c) (h' : s.FdIs sfd o .out b) :
    fd ≠ sfd := by
  rintro rfl
  exact api.reported_ne_out (h.2.1.2.1.symm.trans h'.2.1)

theorem Sys.Keeps.conn_ne (h : s.Keeps c fd) (h' : s.Keeps d sfd) (hne : fd ≠ sfd) : c ≠ d := by
  rintro rfl
  obtain ⟨cell, hcell, hsfd, -⟩ := h
  obtain ⟨cell', hcell', hsfd', -⟩ := h'
  cases hcell.symm.trans hcell'
  exact hne (Option.some.inj (hsfd.symm.trans hsfd'))

section Hands

variable (h : Inv api n s slot pool) (hw : w < n)

include h hw

/-- `accept()`: a descriptor that was closed. -/
theorem inv_accept (hp : s.workers w = .driving fd c)
    (hshut : s.opened sfd = false) :
    Inv api n (goes w (.accepted fd c sfd) { s with opened := Function.update s.opened sfd true })
      (Function.update slot sfd .away) pool := by
  have hok := h.worker_ok hp
  have hx := h.slot_shut hshut
  have hfd := h.slot_ok hx
  have hne : fd ≠ sfd := hok.fd_ne hfd
  refine ⟨?_, h.fired_update hx (by simp) (by simp), h.free, h.lock.goes hw hp (by simp) (by simp)⟩
  · refine h.giveSlot hp sfd hx .away rfl ?_ ?_ ?_ ⟨⟨hok.1, ?_, hok.2.2⟩, ?_⟩ trivial
    · rintro (x | x) hr hr'
      · have hx : x ≠ sfd := by simpa [Part.holds] using hr'
        simp [Agree, goes, hx]
      · rfl
    · intro r
      simp [Worker.holds, Part.holds, or_assoc]
    · simp [Part.holds]
    · obtain ⟨h1, h2, h3⟩ := hok.2.1
      exact ⟨h1, h2, by simpa [goes, hne] using h3⟩
    · exact ⟨hfd.1, hfd.2.1, Function.update_self ..⟩

/-- A new connection is registered, and no longer the worker's. -/
theorem inv_added (hp : s.workers w = .adding fd c sfd d) :
    Inv api n (goes w (.driving fd c) { s with
        watch := Function.update s.watch sfd (api.addEvent (s.watch sfd))
        maxfd := max s.maxfd sfd })
      (Function.update slot sfd (.kernel d)) pool := by
  have hok := h.worker_ok hp
  have hx : slot sfd = .away := h.slot_away (w := w) (by simp [hp, Worker.holds])
  have hne : fd ≠ sfd := hok.1.fd_ne hok.2.2.1
  have hcd : c ≠ d := hok.1.2.2.conn_ne hok.2.2.2 hne
  refine ⟨?_, h.fired_update hx (by simp) (by simp), h.free, h.lock.goes hw hp (by simp) (by simp)⟩
  · refine h.giveSlot hp sfd hx (.kernel d) rfl ?_ ?_ ?_ ⟨hok.1.1, ?_, hok.1.2.2⟩ ⟨hok.2.1, ?_, hok.2.2.2⟩
    · rintro (x | x) hr -
      · have hx : x ≠ sfd := by
          rintro rfl
          exact hr (by simp [Worker.holds])
        simp [Agree, goes, hx]
      · rfl
    · intro r
      simp [Worker.holds, Part.holds, or_assoc]
    · intro r
      simp only [Worker.holds, Part.holds, List.mem_cons, List.not_mem_nil, or_false]
      rintro (rfl | rfl)
      · simp [hne]
      · simp [hcd]
    · obtain ⟨h1, h2, h3⟩ := hok.1.2.1
      exact ⟨h1, by simpa [goes, hne] using h2, h3⟩
    · obtain ⟨h1, h2, h3⟩ := hok.2.2.1
      refine ⟨h1, ?_, h3⟩
      simp only [goes, Function.update_self, h2]
      cases api <;> rfl

/-- A descriptor is closed that was never registered. -/
theorem inv_shut (hp : s.workers w = .rejected fd c sfd) :
    Inv api n (goes w (.driving fd c) { s with
        watch := Function.update s.watch sfd (api.close (s.watch sfd))
        opened := Function.update s.opened sfd false })
      (Function.update slot sfd .shut) pool := by
  have hok := h.worker_ok hp
  have hx : slot sfd = .away := h.slot_away (w := w) (by simp [hp, Worker.holds])
  have hne : fd ≠ sfd := hok.1.fd_ne hok.2
  refine ⟨?_, h.fired_update hx (by simp) (by simp), h.free, h.lock.goes hw hp (by simp) (by simp)⟩
  refine h.giveSlot hp sfd hx .shut rfl ?_ ?_ ?_ ⟨hok.1.1, ?_, hok.1.2.2⟩ ?_
  · rintro (x | x) hr -
    · have hx : x ≠ sfd := by
        rintro rfl
        exact hr (by simp [Worker.holds])
      simp [Agree, goes, hx]
    · rfl
  · intro r
    simp [Worker.holds, Part.holds, or_assoc]
  · intro r
    simp only [Worker.holds, Part.holds, List.mem_cons, List.not_mem_nil, or_false]
    rintro (rfl | rfl)
    · simp [hne]
    · simp
  · obtain ⟨h1, h2, h3⟩ := hok.1.2.1
    exact ⟨h1, by simpa [goes, hne] using h2, by simpa [goes, hne] using h3⟩
  · obtain ⟨h1, h2, h3⟩ := hok.2
    refine ⟨h1, ?_, Function.update_self ..⟩
    simp only [goes, Function.update_self, h2]
    cases api <;> rfl

/-- A descriptor is armed again, and no longer the worker's. -/
theorem inv_armed (hp : s.workers w = .arming fd c) {watch : Watch}
    (hwatch : api.updateEvent (s.watch fd) = some watch) :
    Inv api n (goes w .waiting { s with watch := Function.update s.watch fd watch, maxfd := max s.maxfd fd })
      (Function.update slot fd (.kernel c)) pool := by
  have hok := h.worker_ok hp
  have hx : slot fd = .away := h.slot_away (w := w) (by simp [hp, Worker.holds])
  obtain rfl : watch = .armed := by
    rw [hok.2.1.2.1] at hwatch
    cases api <;> exact (Option.some.inj hwatch).symm
  refine ⟨?_, h.fired_update hx (by simp) (by simp), h.free, h.lock.goes hw hp (by simp) (by simp)⟩
  refine h.giveSlot hp fd hx (.kernel c) rfl ?_ ?_ ?_ trivial ⟨hok.1, ?_, hok.2.2⟩
  · rintro (x | x) hr -
    · have hx : x ≠ fd := by
        rintro rfl
        exact hr (by simp [Worker.holds])
      simp [Agree, goes, hx]
    · rfl
  · simp [Worker.holds, Part.holds]
  · simp [Worker.holds]
  · exact ⟨hok.2.1.1, Function.update_self .., hok.2.1.2.2⟩

/-- `close()`, of a connection. -/
theorem inv_close (hp : s.workers w = .shutting fd c) {cell : Cell}
    (hcell : s.heap c = some cell) :
    Inv api n (goes w (.freeing c) { s with
        watch := Function.update s.watch fd (api.close (s.watch fd))
        opened := Function.update s.opened fd false
        heap := Function.update s.heap c (some { cell with sfd := none }) })
      (Function.update slot fd .shut) pool := by
  have hok := h.worker_ok hp
  have hx : slot fd = .away := h.slot_away (w := w) (by simp [hp, Worker.holds])
  refine ⟨?_, h.fired_update hx (by simp) (by simp), h.free, h.lock.goes hw hp (by simp) (by simp)⟩
  obtain ⟨cell', hcell', -, hseq⟩ := hok.2
  obtain rfl : cell' = cell := Option.some.inj (hcell'.symm.trans hcell)
  refine h.giveSlot hp fd hx .shut rfl ?_ ?_ ?_ ⟨_, Function.update_self .., hseq⟩ ?_
  · rintro (x | x) hr -
    · have hx : x ≠ fd := by
        rintro rfl
        exact hr (by simp [Worker.holds])
      simp [Agree, goes, hx]
    · have hx : x ≠ c := by
        rintro rfl
        exact hr (by simp [Worker.holds])
      exact Function.update_of_ne hx ..
  · intro r
    simp [Worker.holds, Part.holds, or_comm]
  · simp [Worker.holds, Part.holds]
  · obtain ⟨h1, h2, h3⟩ := hok.1
    refine ⟨h1, ?_, Function.update_self ..⟩
    simp only [goes, Function.update_self, h2]
    cases api <;> rfl

/-- A structure is taken and set up for a new connection. -/
theorem inv_filled (hp : s.workers w = .accepted fd c sfd) {x : Pool}
    (hx : pool d = x) (hne : x ≠ .away) {rbuf : Bytes} (hpos : 0 < rbuf.length) (sent : Bytes)
    {freeconns : List Nat} (hfree : Lists freeconns fun y => Function.update pool d .away y = .free) :
    Inv api n (goes w (.filled fd c sfd d) { s with
        heap := Function.update s.heap d (some (.fresh sfd rbuf hpos sent))
        freeconns := freeconns }) slot (Function.update pool d .away) := by
  have hok := h.worker_ok hp
  have hcd : c ≠ d := by
    rintro rfl
    exact hne (hx.symm.trans (h.pool_away (w := w) (by simp [hp, Worker.holds])))
  have hheld : (Part.pool d x).holds = [.conn d] := by
    cases x with
    | unallocated | free => rfl
    | away => exact absurd rfl hne
  refine ⟨?_, h.fired, hfree, h.lock.goes hw hp (by simp) (by simp)⟩
  refine h.givePool hp d hx .away rfl ?_ ?_ ?_ ⟨⟨hok.1.1, hok.1.2.1, ?_⟩, hok.2, ?_⟩ trivial
  · rintro (x | x) - hr
    · exact ⟨rfl, rfl, rfl⟩
    · have hx : x ≠ d := by simpa [hheld] using hr
      exact Function.update_of_ne hx ..
  · intro r
    rw [hheld]
    simp [Worker.holds, Part.holds, or_assoc]
  · simp [Part.holds]
  · obtain ⟨cell, hcell, hs⟩ := hok.1.2.2
    exact ⟨cell, (Function.update_of_ne hcd ..).trans hcell, hs⟩
  · exact ⟨_, Function.update_self .., rfl, fun _ => ⟨rbuf, hpos, .start⟩⟩

/-- A structure is given back. -/
theorem inv_back {p p' : Worker} (hp : s.workers w = p) (hlead : p ≠ .leading)
    (hlead' : p' ≠ .leading) (hheld : ∀ r, r ∈ p.holds ↔ r ∈ p'.holds ∨ r = .conn d) (hnot : .conn d ∉ p'.holds)
    {x : Pool} (hx : (Part.pool d x).holds = [.conn d]) {heap : Nat → Option Cell} {freeconns : List Nat}
    (hheap : ∀ y, y ≠ d → heap y = s.heap y) (hfree : Lists freeconns fun y => Function.update pool d x y = .free)
    (hok : p'.Ok api (goes w p' { s with heap := heap, freeconns := freeconns }))
    (hback : (Part.pool d x).Ok api (goes w p' { s with heap := heap, freeconns := freeconns })) :
    Inv api n (goes w p' { s with heap := heap, freeconns := freeconns }) slot (Function.update pool d x) := by
  have haway : pool d = .away := h.pool_away (w := w) (by rw [hp, hheld]; exact .inr rfl)
  refine ⟨?_, h.fired, hfree, h.lock.goes hw hp hlead hlead'⟩
  refine h.givePool hp d haway x rfl ?_ ?_ ?_ hok hback
  · rintro (y | y) hr -
    · exact ⟨rfl, rfl, rfl⟩
    · exact hheap y fun hy => hr ((hheld _).mpr (.inr (congrArg Res.conn hy)))
  · intro r
    rw [hheld r, hx]
    simp [Part.holds]
  · intro r hr hr'
    rw [hx, List.mem_singleton] at hr'
    exact hnot (hr' ▸ hr)

end Hands

/-- The free list with what was given back to it. -/
theorem Inv.free_push (h : Inv api n s slot pool) (hd : pool d = .away) :
    Lists (s.freeconns ++ [d]) fun y => Function.update pool d .free y = .free := by
  refine h.free.push (by simp [hd]) fun y => ?_
  by_cases hy : y = d <;> simp [hy]

/-- The free list, after something else was given or taken. -/
theorem Inv.free_update (h : Inv api n s slot pool) {x : Pool} (hd : pool d ≠ .free) (hx : x ≠ .free) :
    Lists s.freeconns fun y => Function.update pool d x y = .free := by
  refine h.free.congr fun y => ?_
  by_cases hy : y = d
  · rw [hy, Function.update_self]
    exact iff_of_false hx hd
  · rw [Function.update_of_ne hy]

/-- The free list without what was taken from it. -/
theorem Inv.free_dropLast (h : Inv api n s slot pool) (hlast : s.freeconns.getLast? = some d) :
    Lists s.freeconns.dropLast fun y => Function.update pool d .away y = .free := by
  refine h.free.dropLast hlast fun y => ?_
  by_cases hy : y = d <;> simp [hy]

section Alter

variable {p : Worker} (p' : Worker) (h : Inv api n s slot pool) (hw : w < n) (hp : s.workers w = p)
  (hlead : p ≠ .leading) (hlead' : p' ≠ .leading) (hholds : p'.holds = p.holds)

include h hw hp hlead hlead' hholds

/-- A worker goes on and changes nothing. -/
theorem inv_goes (hok : p'.Ok api (goes w p' s)) : ∃ slot pool, Inv api n (goes w p' s) slot pool := by
  refine h.alter hw hp hlead hlead' rfl rfl rfl rfl ?_ hholds hok
  rintro (x | x) -
  · exact ⟨rfl, rfl, rfl⟩
  · rfl

/-- A worker changes the table, for a descriptor it holds. -/
theorem inv_conns (fd : Nat) {o : Option Nat} (hfd : .fd fd ∈ p.holds)
    (hok : p'.Ok api (goes w p' { s with conns := Function.update s.conns fd o })) :
    ∃ slot pool, Inv api n (goes w p' { s with conns := Function.update s.conns fd o }) slot pool := by
  refine h.alter hw hp hlead hlead' rfl rfl rfl rfl ?_ hholds hok
  rintro (x | x) hr
  · have hx : x ≠ fd := by
      rintro rfl
      exact hr hfd
    exact ⟨Function.update_of_ne hx .., rfl, rfl⟩
  · rfl

end Alter

/-- A system call of a connection has returned: the connection is as it was when the call was made. -/
theorem inv_returned {p' : Worker} {world world' : World} {cell : Cell} {e : Event} (h : Inv api n s slot pool)
    (hw : w < n) (hp : s.workers w = .calling fd c world) (hcell : s.heap c = some cell)
    (hnext : connNext world e = some world')
    (hp' : p' = .driving fd c ∨ p' = .updating fd c ∨ ∃ fd', cell.sfd = some fd' ∧ p' = .closing fd' c) :
    ∃ slot pool, Inv api n
      (goes w p' { s with heap := Function.update s.heap c (some { cell with world := world' }) }) slot pool := by
  obtain ⟨⟨hsmall, hfd, cell', hcell', hsfd, hseq⟩, cell'', hcell'', hclient, rfl⟩ := h.worker_ok hp
  obtain rfl : cell' = cell := Option.some.inj (hcell'.symm.trans hcell)
  obtain rfl : cell'' = cell' := Option.some.inj (hcell''.symm.trans hcell)
  have hkeeps : Sys.Keeps
      (goes w p' { s with heap := Function.update s.heap c (some { cell'' with world := world' }) }) c fd := by
    refine ⟨_, Function.update_self .., hsfd, fun _ => ?_⟩
    obtain ⟨cells, hpos, hreach⟩ := hseq hclient
    exact ⟨cells, hpos, .step e hreach trivial hnext⟩
  have hmem : ∀ r, r ∉ (Worker.calling fd c cell''.world).holds → Agree s
      (goes w p' { s with heap := Function.update s.heap c (some { cell'' with world := world' }) }) r := by
    rintro (x | x) hr
    · exact ⟨rfl, rfl, rfl⟩
    · have hx : x ≠ c := by
        rintro rfl
        exact hr (by simp [Worker.holds])
      exact Function.update_of_ne hx ..
  obtain rfl | rfl | ⟨fd', hsfd', rfl⟩ := hp'
  · exact h.alter hw hp (by simp) (by simp) rfl rfl rfl rfl hmem rfl ⟨hsmall, hfd, hkeeps⟩
  · exact h.alter hw hp (by simp) (by simp) rfl rfl rfl rfl hmem rfl ⟨hsmall, hfd, hkeeps⟩
  · obtain rfl : fd' = fd := Option.some.inj (hsfd'.symm.trans hsfd)
    exact h.alter hw hp (by simp) (by simp) rfl rfl rfl rfl hmem rfl ⟨hsmall, ⟨_, hfd⟩, hkeeps⟩

/-- **Every step keeps the invariant.** -/
theorem inv_step {p : Worker} (hone : api = .epoll ∨ n ≤ 1) (h : Inv api n s slot pool) (hw : w < n)
    (hp : s.workers w = p) (hs : Step api s w p s') : ∃ slot pool, Inv api n s' slot pool := by
  have hok := h.worker_ok hp
  cases hs with
  | lock hfree => exact ⟨_, _, inv_lock h hw hp hfree⟩
  | poll fds hnil hnodup harmed => exact ⟨_, _, inv_poll hone h hw hp hnil hnodup harmed⟩
  | take fd c hlast hconn => exact ⟨_, _, inv_take h hw hp hlast hconn⟩
  | bug fd hlast hconn =>
    obtain ⟨c, hx⟩ := (h.fired.2 fd).mp (List.mem_of_getLast? hlast)
    cases (h.slot_ok hx).2.1.1.symm.trans hconn
  | accept sfd hshut _ => exact ⟨_, _, inv_accept h hw hp hshut⟩
  | stop => exact inv_goes _ h hw hp (by simp) (by simp) rfl hok
  | call cell hcell hclient => exact inv_goes _ h hw hp (by simp) (by simp) rfl ⟨hok, cell, hcell, hclient, rfl⟩
  | returned p' cell e world' hcell hnext hp' => exact inv_returned h hw hp hcell hnext hp'
  | reused d cell sent hlast hcell =>
    have hx := (h.free.2 d).mp (List.mem_of_getLast? hlast)
    exact ⟨_, _, inv_filled h hw hp hx (by simp) _ sent (h.free_dropLast hlast)⟩
  | alloc d rbuf hpos sent hfree hnone =>
    have hx := h.pool_unallocated hnone
    have hlist := h.free_update (d := d) (x := .away) (by simp [hx]) (by simp)
    rw [hfree] at hlist
    exact ⟨_, _, inv_filled h hw hp hx (by simp) hpos sent hlist⟩
  | dropped | large => exact inv_goes _ h hw hp (by simp) (by simp) rfl hok
  | @register fd c sfd d hsmall hnone =>
    refine inv_conns (.adding fd c sfd d) h hw hp (by simp) (by simp) rfl sfd (by simp [Worker.holds]) ?_
    have hne := hok.1.fd_ne hok.2.1
    exact ⟨⟨hok.1.1, ⟨(Function.update_of_ne hne ..).trans hok.1.2.1.1, hok.1.2.1.2⟩, hok.1.2.2⟩,
      hsmall, ⟨Function.update_self .., hok.2.1.2⟩, hok.2.2⟩
  | abort hsome => exact absurd hok.2.1.1 hsome
  | added => exact ⟨_, _, inv_added h hw hp⟩
  | @notAdded fd c sfd d =>
    refine inv_conns (.refused fd c sfd d) h hw hp (by simp) (by simp) rfl sfd (by simp [Worker.holds]) ?_
    have hne := hok.1.fd_ne hok.2.2.1
    exact ⟨⟨hok.1.1, ⟨(Function.update_of_ne hne ..).trans hok.1.2.1.1, hok.1.2.1.2⟩, hok.1.2.2⟩,
      ⟨Function.update_self .., hok.2.2.1.2⟩, hok.2.2.2⟩
  | @putBack fd c sfd d =>
    have hne := hok.1.2.2.conn_ne hok.2.2 (hok.1.fd_ne hok.2.1)
    have haway : pool d = .away := h.pool_away (w := w) (by simp [hp, Worker.holds])
    exact ⟨_, _, inv_back h hw hp (by simp) (by simp) (by simp [Worker.holds, or_assoc])
      (by simp [Worker.holds, hne.symm]) (x := .free) rfl (fun _ _ => rfl) (h.free_push haway)
      ⟨hok.1, hok.2.1⟩ hok.2.2.allocated⟩
  | @freed fd c sfd d =>
    have hne := hok.1.2.2.conn_ne hok.2.2 (hok.1.fd_ne hok.2.1)
    have haway : pool d = .away := h.pool_away (w := w) (by simp [hp, Worker.holds])
    refine ⟨_, _, inv_back h hw hp (by simp) (by simp) (by simp [Worker.holds, or_assoc])
      (by simp [Worker.holds, hne.symm]) (x := .unallocated) rfl (fun _ hy => Function.update_of_ne hy ..)
      (h.free_update (by simp [haway]) (by simp)) ⟨⟨hok.1.1, hok.1.2.1, ?_⟩, hok.2.1⟩ (Function.update_self ..)⟩
    obtain ⟨cell, hcell, hs⟩ := hok.1.2.2
    exact ⟨cell, (Function.update_of_ne hne ..).trans hcell, hs⟩
  | shut => exact ⟨_, _, inv_shut h hw hp⟩
  | @update fd c =>
    refine inv_conns (.arming fd c) h hw hp (by simp) (by simp) rfl fd (by simp [Worker.holds]) ?_
    exact ⟨hok.1, ⟨Function.update_self .., hok.2.1.2⟩, hok.2.2⟩
  | armed watch hwatch => exact ⟨_, _, inv_armed h hw hp hwatch⟩
  | @notArmed fd c cell fd' hcell hsfd =>
    obtain ⟨hsmall, hfd, cell', hcell', hsfd', hseq⟩ := hok
    obtain rfl : cell' = cell := Option.some.inj (hcell'.symm.trans hcell)
    obtain rfl : fd' = fd := Option.some.inj (hsfd.symm.trans hsfd')
    refine inv_conns (.closing fd' c) h hw hp (by simp) (by simp) rfl fd' (by simp [Worker.holds]) ?_
    exact ⟨hsmall, ⟨none, Function.update_self .., hfd.2⟩, cell', hcell, hsfd, hseq⟩
  | tooLarge hlarge => exact absurd hok.1 (Nat.not_lt_of_le hlarge)
  | @delete fd c =>
    refine inv_conns (.deleting fd c) h hw hp (by simp) (by simp) rfl fd (by simp [Worker.holds]) ?_
    obtain ⟨-, ⟨o, ho⟩, hkeeps⟩ := hok
    exact ⟨⟨Function.update_self .., ho.2⟩, hkeeps⟩
  | @deleted fd c =>
    refine h.alter hw hp (by simp) (by simp) rfl rfl rfl rfl ?_ rfl
      ⟨⟨hok.1.1, Function.update_self .., hok.1.2.2⟩, hok.2⟩
    rintro (x | x) hr
    · have hx : x ≠ fd := by
        rintro rfl
        exact hr (by simp [Worker.holds])
      exact ⟨rfl, Function.update_of_ne hx .., rfl⟩
    · rfl
  | close cell hcell => exact ⟨_, _, inv_close h hw hp hcell⟩
  | @pooled c =>
    have haway : pool c = .away := h.pool_away (w := w) (by simp [hp, Worker.holds])
    exact ⟨_, _, inv_back h hw hp (by simp) (by simp) (by simp [Worker.holds]) (by simp [Worker.holds])
      (x := .free) rfl (fun _ _ => rfl) (h.free_push haway) trivial hok⟩
  | @gone c =>
    have haway : pool c = .away := h.pool_away (w := w) (by simp [hp, Worker.holds])
    exact ⟨_, _, inv_back h hw hp (by simp) (by simp) (by simp [Worker.holds]) (by simp [Worker.holds])
      (x := .unallocated) rfl (fun _ hy => Function.update_of_ne hy ..) (h.free_update (by simp [haway]) (by simp))
      trivial (Function.update_self ..)⟩

end Steps

/-! ## 5. The runs -/

/-- The workers can come from one state to the other. -/
abbrev Run (api : Api) (n : Nat) : Sys → Sys → Prop := Reaches (next api n) fun _ _ => True

theorem Run.next {api : Api} {n : Nat} {s t t' : Sys} {a : Nat × Choice} (h : Run api n s t)
    (hs : Workers.next api n t a = some t') : Run api n s t' :=
  .step a h trivial hs

section Runs

variable {limit : Nat} {api : Api} {n : Nat} {ls : Listeners} {maxfd : Int} {s s' : Sys}

theorem find?_socket {l : List (Nat × Nat)} {f : Nat × Nat → Nat} (h : (l.map f).Nodup) {p : Nat × Nat} (hp : p ∈ l) :
    l.find? (fun q => f q == f p) = some p := by
  cases hfind : l.find? (fun q => f q == f p) with
  | none => exact absurd (beq_self_eq_true (f p)) (List.find?_eq_none.mp hfind p hp)
  | some q =>
    have hq : f q = f p := by simpa using List.find?_some hfind
    rw [List.inj_on_of_nodup_map h (List.mem_of_find?_eq_some hfind) hp hq]

/-- Where the descriptors are at the start. -/
def Listeners.slot (ls : Listeners) (fd : Nat) : Slot :=
  match ls.sockets.find? fun p => p.1 == fd with
  | some p => .kernel p.2
  | none => if fd ∈ ls.others then .system else .shut

def Listeners.pool (ls : Listeners) (c : Nat) : Pool := if c ∈ ls.sockets.map Prod.snd then .away else .unallocated

theorem Listeners.slot_cases (ls : Listeners) (fd : Nat) :
    (∃ c, (fd, c) ∈ ls.sockets ∧ ls.slot fd = .kernel c) ∨ (ls.sockets.find? (fun p => p.1 == fd) = none ∧
      (ls.slot fd = .system ∧ fd ∈ ls.others ∨ ls.slot fd = .shut ∧ fd ∉ ls.others)) := by
  unfold Listeners.slot
  cases hfind : ls.sockets.find? fun p => p.1 == fd with
  | some p =>
    obtain rfl : p.1 = fd := by simpa using List.find?_some hfind
    exact .inl ⟨p.2, List.mem_of_find?_eq_some hfind, rfl⟩
  | none =>
    refine .inr ⟨rfl, ?_⟩
    by_cases hfd : fd ∈ ls.others
    · exact .inl ⟨if_pos hfd, hfd⟩
    · exact .inr ⟨if_neg hfd, hfd⟩

theorem Listeners.slot_of_mem {p : Nat × Nat} (hp : p ∈ ls.sockets) : ls.slot p.1 = .kernel p.2 := by
  rw [Listeners.slot, find?_socket ls.fds hp]

/-- Who holds something at the start: the slot of a descriptor, the slot of a listening structure, and the
    pool for what is not allocated. -/
theorem Listeners.holder_fd {i : Agent} {fd : Nat} (ls : Listeners)
    (hi : .fd fd ∈ (parts (fun _ => .waiting) ls.slot ls.pool i).holds) : i = .slot fd := by
  cases i with
  | worker w => cases hi
  | slot x => rw [(Slot.fd_mem.mp hi).1]
  | pool x => exact absurd hi Pool.fd_not_mem

theorem Listeners.holder_conn {i : Agent} {p : Nat × Nat} (ls : Listeners) (hp : p ∈ ls.sockets)
    (hi : .conn p.2 ∈ (parts (fun _ => .waiting) ls.slot ls.pool i).holds) : i = .slot p.1 := by
  cases i with
  | worker w => cases hi
  | slot x =>
    simp only [parts] at hi
    obtain ⟨c, hc, hx⟩ | ⟨-, ⟨hx, -⟩ | ⟨hx, -⟩⟩ := ls.slot_cases x
    · rw [hx] at hi
      have hpc : p.2 = c := by simpa [Part.holds] using hi
      rw [List.inj_on_of_nodup_map ls.conns hp hc hpc]
    · simp [hx, Part.holds] at hi
    · simp [hx, Part.holds] at hi
  | pool x =>
    obtain ⟨rfl, hne⟩ := Pool.conn_mem.mp hi
    exact absurd (if_pos (List.mem_map_of_mem hp)) hne

theorem Listeners.holder_pool {i : Agent} {c : Nat} (ls : Listeners) (hc : c ∉ ls.sockets.map Prod.snd)
    (hi : .conn c ∈ (parts (fun _ => .waiting) ls.slot ls.pool i).holds) : i = .pool c := by
  cases i with
  | worker w => cases hi
  | slot x =>
    simp only [parts] at hi
    obtain ⟨d, hd, hx⟩ | ⟨-, ⟨hx, -⟩ | ⟨hx, -⟩⟩ := ls.slot_cases x
    · rw [hx] at hi
      have hcd : c = d := by simpa [Part.holds] using hi
      exact absurd (List.mem_map.mpr ⟨_, hd, hcd.symm⟩) hc
    · simp [hx, Part.holds] at hi
    · simp [hx, Part.holds] at hi
  | pool x => rw [(Pool.conn_mem.mp hi).1]

theorem inv_boot (api : Api) (n : Nat) (ls : Listeners) (limit : Nat) (maxfd : Int) :
    Inv api n (boot ls limit maxfd) ls.slot ls.pool := by
  refine ⟨⟨?_, ?_, ?_⟩, ⟨List.nodup_nil, ?_⟩, ⟨List.nodup_nil, ?_⟩, ?_, fun _ _ => rfl⟩
  · intro r
    cases r with
    | fd fd =>
      refine ⟨.slot fd, Slot.fd_mem.mpr ⟨rfl, ?_⟩⟩
      obtain ⟨c, -, hx⟩ | ⟨-, ⟨hx, -⟩ | ⟨hx, -⟩⟩ := ls.slot_cases fd <;> simp [hx]
    | conn c =>
      by_cases hc : c ∈ ls.sockets.map Prod.snd
      · obtain ⟨p, hp, rfl⟩ := List.mem_map.mp hc
        exact ⟨.slot p.1, by simp [sharing, parts, ls.slot_of_mem hp, Part.holds]⟩
      · exact ⟨.pool c, Pool.conn_mem.mpr ⟨rfl, by simp [Listeners.pool, hc]⟩⟩
  · intro i j r hi hj
    cases r with
    | fd fd =>
      rw [ls.holder_fd hi, ls.holder_fd hj]
    | conn c =>
      by_cases hc : c ∈ ls.sockets.map Prod.snd
      · obtain ⟨p, hp, rfl⟩ := List.mem_map.mp hc
        rw [ls.holder_conn hp hi, ls.holder_conn hp hj]
      · rw [ls.holder_pool hc hi, ls.holder_pool hc hj]
  · intro i
    cases i with
    | worker w => trivial
    | slot fd =>
      obtain ⟨c, hc, hx⟩ | ⟨hnone, ⟨hx, hfd⟩ | ⟨hx, hfd⟩⟩ := ls.slot_cases fd
      · have hfind := find?_socket ls.fds hc
        have hcell := find?_socket ls.conns hc
        simp only [sharing, parts, hx]
        refine ⟨ls.small _ hc, ⟨?_, ?_, ?_⟩, .listen fd, ?_, rfl, fun h => Bool.noConfusion h⟩
        · simp [boot, hfind]
        · simp [boot, hfind]
        · simp [boot, hfind]
        · simp [boot, hcell]
      · simp [sharing, parts, hx, Part.Ok, Sys.FdIs, boot, hnone, hfd]
      · simp [sharing, parts, hx, Part.Ok, Sys.FdIs, boot, hnone, hfd]
    | pool c =>
      by_cases hc : c ∈ ls.sockets.map Prod.snd
      · simp [sharing, parts, Listeners.pool, hc, Part.Ok]
      · have hfind : ls.sockets.find? (fun p => p.2 == c) = none := by
          refine List.find?_eq_none.mpr fun p hp h => hc ?_
          exact List.mem_map.mpr ⟨p, hp, eq_of_beq h⟩
        simp only [sharing, parts, Listeners.pool, if_neg hc]
        simp [Part.Ok, boot, hfind]
  · intro fd
    refine iff_of_false List.not_mem_nil ?_
    rintro ⟨c, hc⟩
    obtain ⟨c, -, hx⟩ | ⟨-, ⟨hx, -⟩ | ⟨hx, -⟩⟩ := ls.slot_cases fd <;> cases hx.symm.trans hc
  · intro c
    refine iff_of_false List.not_mem_nil ?_
    by_cases hc : c ∈ ls.sockets.map Prod.snd <;> simp [Listeners.pool, hc]
  · intro w
    exact iff_of_false (by simp [boot]) (by simp [boot])

/-- The invariant, over every run. -/
theorem inv_of_reaches (hone : api = .epoll ∨ n ≤ 1) (h : Run api n (boot ls limit maxfd) s) :
    ∃ slot pool, Inv api n s slot pool := by
  refine h.invariant (fun s => ∃ slot pool, Inv api n s slot pool) ⟨_, _, inv_boot api n ls limit maxfd⟩ ?_
  rintro s ⟨w, a⟩ s' ⟨slot, pool, hinv⟩ - hs
  obtain ⟨hw, hs⟩ := Option.ite_none_right_eq_some.mp hs
  exact inv_step hone hinv hw rfl (workerNext_step hs)

/-- What a worker calls `FD_SET` or `FD_CLR` with next, if the poll set is that of `select`. -/
def Worker.setting : Worker → Option Nat
  | .adding _ _ sfd _ => some sfd
  | .arming fd _ => some fd
  | .deleting fd _ => some fd
  | _ => none

/-- Nothing beyond the sets of `select` is written, nor read in the loop up to `maxfd`. -/
def Sys.InSets (s : Sys) : Prop :=
  s.maxfd < fdSetsize ∧ ∀ w fd, (s.workers w).setting = some fd → fd < fdSetsize

/-- **Safety**: a connection is with one worker at a time, and is not given back meanwhile; a registered
    descriptor is armed, reported or with a worker; what was reported has a connection; the assertion of
    `add_event` holds; and `select` stays within its sets. -/
structure Safe (api : Api) (s : Sys) : Prop where
  once : ∀ {w w' c : Nat}, .conn c ∈ (s.workers w).holds → .conn c ∈ (s.workers w').holds → w = w'
  allocated : ∀ {w c : Nat}, .conn c ∈ (s.workers w).holds → (∃ cell, s.heap c = some cell) ∧ c ∉ s.freeconns
  kept : ∀ {fd c : Nat}, s.conns fd = some c → s.watch fd = .armed ∨ fd ∈ s.fired ∨ ∃ w, .fd fd ∈ (s.workers w).holds
  fired : ∀ fd ∈ s.fired, s.conns fd ≠ none
  asserted : ∀ w, s.workers w ≠ .aborted
  sets : api = .select → s.InSets

/-- **What `select` needs**: an `fd_set` has room for every descriptor the process may have, and for what `malloc`
    has left in `maxfd`. -/
structure FitsSets (ls : Listeners) (limit : Nat) (maxfd : Int) : Prop where
  room : limit ≤ fdSetsize
  left : maxfd < fdSetsize
  opened : ∀ fd, (boot ls limit maxfd).opened fd = true → fd < limit

/-- The descriptors that are open, and `maxfd`. -/
structure Bounded (s : Sys) : Prop where
  opened : ∀ fd, s.opened fd = true → fd < s.limit
  maxfd : s.maxfd < fdSetsize

theorem maxfd_boot_lt {l : List (Nat × Nat)} {bound : Nat} (hmaxfd : maxfd < bound) (hl : ∀ p ∈ l, p.1 < bound) :
    l.foldr (fun p m => max m (p.1 : Int)) maxfd < bound := by
  induction l with
  | nil => exact hmaxfd
  | cons p l ih =>
    have hp := hl p List.mem_cons_self
    refine max_lt (ih fun q hq => hl q (List.mem_cons_of_mem p hq)) ?_
    exact_mod_cast hp

theorem FitsSets.bounded (h : FitsSets ls limit maxfd) : Bounded (boot ls limit maxfd) := by
  refine ⟨h.opened, maxfd_boot_lt h.left fun p hp => ?_⟩
  have hopened : (boot ls limit maxfd).opened p.1 = true := by simp [boot, find?_socket ls.fds hp]
  exact Nat.lt_of_lt_of_le (h.opened p.1 hopened) h.room

/-- What is open after another descriptor was closed. -/
theorem opened_closed {opened : Nat → Bool} {x fd : Nat} (h : Function.update opened x false fd = true) :
    opened fd = true := by
  by_cases hfd : fd = x
  · simp [hfd] at h
  · exact (Function.update_of_ne hfd ..).symm.trans h

/-- A step opens at most what it accepts. -/
theorem Step.opened_of {w fd : Nat} {p : Worker} (hs : Step api s w p s') (h : s'.opened fd = true) :
    s.opened fd = true ∨ fd < s.limit := by
  cases hs with
  | accept sfd _ hlimit =>
    by_cases hfd : fd = sfd
    · exact .inr (hfd ▸ hlimit)
    · exact .inl ((Function.update_of_ne hfd ..).symm.trans h)
  | bug | shut | close => exact .inl (opened_closed h)
  | _ => exact .inl h

theorem Step.limit_eq {w : Nat} {p : Worker} (hs : Step api s w p s') : s'.limit = s.limit := by
  cases hs <;> rfl

/-- A step raises `maxfd` to a descriptor that the worker holds. -/
theorem Step.maxfd_of {w : Nat} {p : Worker} (hs : Step api s w p s') :
    s'.maxfd = s.maxfd ∨ ∃ fd : Nat, .fd fd ∈ p.holds ∧ s'.maxfd = max s.maxfd fd := by
  cases hs with
  | @added _ _ sfd _ => exact .inr ⟨sfd, by simp [Worker.holds], rfl⟩
  | @armed fd _ _ _ => exact .inr ⟨fd, by simp [Worker.holds], rfl⟩
  | _ => exact .inl rfl

theorem bounded_step {slot : Nat → Slot} {pool : Nat → Pool} {w : Nat} (hlimit : s.limit ≤ fdSetsize)
    (hinv : Inv api n s slot pool) (h : Bounded s) (hs : Step api s w (s.workers w) s') : Bounded s' := by
  refine ⟨fun fd hfd => ?_, ?_⟩
  · rw [hs.limit_eq]
    exact (hs.opened_of hfd).elim (h.opened fd) id
  · obtain hsame | ⟨fd, hfd, hmax⟩ := hs.maxfd_of
    · exact hsame ▸ h.maxfd
    · have hopen := h.opened fd ((hinv.worker_ok rfl).held_fd hfd).1
      rw [hmax]
      refine max_lt h.maxfd ?_
      exact_mod_cast Nat.lt_of_lt_of_le hopen hlimit

/-- **`select` stays within its sets**, if it has what it needs. -/
theorem inSets_of_reaches (hone : api = .epoll ∨ n ≤ 1) (hfits : FitsSets ls limit maxfd)
    (h : Run api n (boot ls limit maxfd) s) : s.InSets := by
  have hbounded : s.limit = limit ∧ Bounded s := by
    induction h with
    | start => exact ⟨rfl, hfits.bounded⟩
    | step a hr _ hs ih =>
      obtain ⟨slot, pool, hinv⟩ := inv_of_reaches hone hr
      have hstep := workerNext_step (Option.ite_none_right_eq_some.mp hs).2
      exact ⟨hstep.limit_eq.trans ih.1, bounded_step (ih.1 ▸ hfits.room) hinv ih.2 hstep⟩
  obtain ⟨slot, pool, hinv⟩ := inv_of_reaches hone h
  obtain ⟨hlimit, hbounded⟩ := hbounded
  refine ⟨hbounded.maxfd, fun w fd hset => ?_⟩
  have hheld : .fd fd ∈ (s.workers w).holds := by
    unfold Worker.setting at hset
    split at hset <;> cases hset
    all_goals simp [*, Worker.holds]
  have hopen := hbounded.opened fd ((hinv.worker_ok rfl).held_fd hheld).1
  exact Nat.lt_of_lt_of_le (hlimit ▸ hopen) hfits.room

theorem Inv.safe {slot : Nat → Slot} {pool : Nat → Pool} (h : Inv api n s slot pool)
    (hsets : api = .select → s.InSets) : Safe api s := by
  refine ⟨?_, ?_, ?_, ?_, ?_, hsets⟩
  · intro w w' c hc hc'
    have := h.owned.alone (i := .worker w) (j := .worker w') hc hc'
    exact Agent.worker.inj this
  · intro w c hc
    obtain ⟨cell, hcell, -⟩ := Worker.Ok.held_conn (h.worker_ok rfl) hc
    refine ⟨⟨cell, hcell⟩, fun hfree => ?_⟩
    cases (h.pool_away hc).symm.trans ((h.free.2 c).mp hfree)
  · intro fd c hconn
    obtain hne | hw := h.fd_held fd
    · cases hx : slot fd with
      | shut | system => cases (h.slot_ok hx).1.symm.trans hconn
      | kernel c => exact .inl (h.slot_ok hx).2.1.2.1
      | queued c => exact .inr (.inl ((h.fired.2 fd).mpr ⟨c, hx⟩))
      | away => exact absurd hx hne
    · exact .inr (.inr hw)
  · intro fd hfd hnone
    obtain ⟨c, hx⟩ := (h.fired.2 fd).mp hfd
    cases (h.slot_ok hx).2.1.1.symm.trans hnone
  · intro w hw
    exact h.worker_ok hw

/-- A worker's turn as the leader, with `select`: the descriptor it takes stays armed. -/
theorem select_turn (w fd c : Nat) (hw : w < n) (hp : s.workers w = .waiting) (hleader : s.leader = none)
    (hfired : s.fired = []) (harmed : s.watch fd = .armed) (hscan : fd ≤ s.maxfd) (hconn : s.conns fd = some c) :
    Run .select n s (goes w (.driving fd c) s) := by
  have hlock : next .select n s (w, .go) = some (goes w .leading { s with leader := some w }) := by
    simp [next, hw, hp, workerNext, hleader]
  have hpoll : next .select n (goes w .leading { s with leader := some w }) (w, .ready [fd]) =
      some (goes w .leading { s with leader := some w, fired := [fd] }) := by
    simp [next, hw, workerNext, goes, hfired, harmed, hscan, Api.report, Api.scans]
  have htake : next .select n (goes w .leading { s with leader := some w, fired := [fd] }) (w, .go) =
      some (goes w (.driving fd c) s) := by
    have hs : goes w (.driving fd c) s = goes w (.driving fd c) { s with fired := [], leader := none } := by
      rw [← hfired, ← hleader]
    rw [hs]
    simp [next, hw, workerNext, goes, hconn]
  exact ((Run.next .start hlock).next hpoll).next htake

/-- Two workers after each other: both drive the connection. -/
theorem select_twice (w w' fd c : Nat) (hw : w < n) (hw' : w' < n) (hne : w ≠ w') (hp : s.workers w = .waiting)
    (hp' : s.workers w' = .waiting) (hleader : s.leader = none) (hfired : s.fired = [])
    (harmed : s.watch fd = .armed) (hscan : fd ≤ s.maxfd) (hconn : s.conns fd = some c) :
    Run .select n s (goes w' (.driving fd c) (goes w (.driving fd c) s)) := by
  have hfirst := select_turn w fd c hw hp hleader hfired harmed hscan hconn
  have hwaits : (goes w (.driving fd c) s).workers w' = .waiting := (Function.update_of_ne hne.symm ..).trans hp'
  exact hfirst.trans
    (select_turn w' fd c hw' hwaits (s := goes w (.driving fd c) s) hleader hfired harmed hscan hconn)

/-- A listening socket is looked at. -/
theorem le_maxfd_boot {p : Nat × Nat} (hp : p ∈ ls.sockets) : (p.1 : Int) ≤ (boot ls limit maxfd).maxfd := by
  show _ ≤ ls.sockets.foldr (fun p m => max m (p.1 : Int)) maxfd
  revert hp
  induction ls.sockets with
  | nil => exact fun hp => absurd hp List.not_mem_nil
  | cons q l ih =>
    intro hp
    rcases List.mem_cons.mp hp with rfl | hp
    · exact le_max_right _ _
    · exact le_max_of_le_left (ih hp)

/-- **The workers are safe exactly with `epoll`, or when there is a single one** (as `num_threads` has it), where
    `select` has what it needs. -/
theorem workers_safe_iff (api : Api) (n : Nat) (ls : Listeners) (limit : Nat) (maxfd : Int)
    (hfits : api = .select → FitsSets ls limit maxfd) :
    (∀ s, Run api n (boot ls limit maxfd) s → Safe api s) ↔ api = .epoll ∨ n ≤ 1 := by
  constructor
  · intro h
    by_contra hone
    obtain ⟨hapi, hn⟩ := not_or.mp hone
    obtain rfl : api = .select := by
      cases api with
      | epoll => exact absurd rfl hapi
      | select => rfl
    obtain ⟨p, ps, hps⟩ := List.exists_cons_of_ne_nil ls.listens
    have hp : p ∈ ls.sockets := hps ▸ List.mem_cons_self
    have hfind := find?_socket ls.fds hp
    have hrun := select_twice (s := boot ls limit maxfd) (n := n) 0 1 p.1 p.2 (by omega) (by omega) Nat.zero_ne_one rfl
      rfl rfl rfl (by simp [boot, hfind]) (le_maxfd_boot hp) (by simp [boot, hfind])
    have hboth : 0 = 1 := (h _ hrun).once (c := p.2) (by simp [goes, Worker.holds]) (by simp [goes, Worker.holds])
    cases hboth
  · intro hone s hs
    obtain ⟨slot, pool, hinv⟩ := inv_of_reaches hone hs
    exact hinv.safe fun hapi => inSets_of_reaches hone (hfits hapi) hs

/-- One listening socket. -/
def singleListener : Listeners where
  sockets := [(3, 0)]
  listens := by decide
  others := [0, 1, 2]
  fds := by decide
  conns := by decide
  apart := by decide
  small := by decide

theorem singleListener_fits : FitsSets singleListener 1024 0 := by
  refine ⟨Nat.le_refl _, by decide, fun fd hfd => ?_⟩
  have hmem : fd = 3 ∨ fd = 0 ∨ fd = 1 ∨ fd = 2 := by
    simp only [boot, singleListener, List.find?_singleton, beq_iff_eq] at hfd
    split at hfd
    · rename_i heq
      exact .inl heq.symm
    · exact .inr (by simpa using hfd)
  omega

/-- As the server is started: `select`, one worker, and 1024 descriptors. -/
theorem workers_safe_single :
    FitsSets singleListener 1024 0 ∧ ∀ s, Run .select 1 (boot singleListener 1024 0) s → Safe .select s :=
  ⟨singleListener_fits,
    (workers_safe_iff .select 1 singleListener 1024 0 fun _ => singleListener_fits).mpr (.inr (Nat.le_refl 1))⟩

/-- A system call that ends the connection. -/
theorem closing_call {world : World} (h : world.conn.state ≠ .closing) :
    ∃ e world', connNext world e = some world' ∧ world'.conn.state = .closing := by
  cases hstate : world.conn.state with
  | read =>
    refine ⟨.read .error, { world with conn := connSetState world.conn .closing }, by simp [connNext, hstate], ?_⟩
    simp [connSetState, hstate]
  | write =>
    refine ⟨.transmit .hardError, { world with conn := connSetState world.conn .closing },
      by simp [connNext, hstate], ?_⟩
    simp [connSetState, hstate]
  | closing => exact absurd hstate h

/-- A worker can end the connection that it drives and give it back. -/
theorem drives_to_end (api : Api) {w fd c : Nat} {cell : Cell} (hw : w < n) (hp : s.workers w = .driving fd c)
    (hcell : s.heap c = some cell) (hclient : cell.listening = false) (hsfd : cell.sfd = some fd)
    (hsmall : fd < aeSetsize) (hstate : cell.world.conn.state ≠ .closing) :
    ∃ s', Run api n s s' ∧ (∀ v, v ≠ w → s'.workers v = s.workers v) ∧ (c ∈ s'.freeconns ∨ s'.heap c = none) := by
  obtain ⟨e, world', hnext, hend⟩ := closing_call hstate
  have hcall : next api n s (w, .go) = some (goes w (.calling fd c cell.world) s) := by
    simp [next, hw, hp, workerNext, hcell, hclient]
  have hreturns : next api n (goes w (.calling fd c cell.world) s) (w, .returns e) =
      some (goes w (.closing fd c)
        { s with heap := Function.update s.heap c (some { cell with world := world' }) }) := by
    simp [next, hw, workerNext, goes, hcell, hnext, hend, hsfd]
  have hdelete : ∀ s, next api n (goes w (.closing fd c) s) (w, .go) =
      some (goes w (.deleting fd c) { s with conns := Function.update s.conns fd none }) := by
    simp [next, hw, workerNext, goes, hsmall]
  have hdeleted : ∀ s, next api n (goes w (.deleting fd c) s) (w, .go) =
      some (goes w (.shutting fd c) { s with watch := Function.update s.watch fd .out }) := by
    simp [next, hw, workerNext, goes]
  have hclose : ∀ s cell, s.heap c = some cell → next api n (goes w (.shutting fd c) s) (w, .go) =
      some (goes w (.freeing c) { s with
        watch := Function.update s.watch fd (api.close (s.watch fd))
        opened := Function.update s.opened fd false
        heap := Function.update s.heap c (some { cell with sfd := none }) }) := by
    intro s cell hcell
    simp [next, hw, workerNext, goes, hcell]
  have hback : ∀ (t : Sys) (cell : Cell), Run api n s (goes w (.freeing c) t) → t.workers = s.workers →
      t.heap c = some cell →
      ∃ s', Run api n s s' ∧ (∀ v, v ≠ w → s'.workers v = s.workers v) ∧
        (c ∈ s'.freeconns ∨ s'.heap c = none) := by
    intro t cell hrun hworkers hcell
    by_cases hbig : 8192 < cell.world.conn.rsize
    · refine ⟨goes w .waiting { t with heap := Function.update t.heap c none },
        hrun.next (a := (w, .go)) (by simp [next, hw, workerNext, goes, hcell, hbig]), ?_,
          .inr (Function.update_self ..)⟩
      intro v hv
      simp only [goes, hworkers, Function.update_of_ne hv]
    · refine ⟨goes w .waiting { t with freeconns := t.freeconns ++ [c] },
        hrun.next (a := (w, .go)) (by simp [next, hw, workerNext, goes, hcell, hbig]), ?_, .inl (by simp [goes])⟩
      intro v hv
      simp only [goes, hworkers, Function.update_of_ne hv]
  have hrun : Run api n s _ := Run.next (Run.next .start hcall) hreturns
  have hend := ((hrun.next (hdelete _)).next (hdeleted _)).next
    (hclose _ _ (Function.update_self ..))
  exact hback _ _ hend rfl (Function.update_self ..)

section Accepts

variable (w fd c sfd d : Nat) (cell : Cell) (rbuf sent : Bytes) (hw : w < n)
  (hcell : s.heap c = some cell) (hlistens : cell.listening = true) (hopened : s.opened sfd = false)
  (hlimit : sfd < s.limit) (hnone : s.conns sfd = none) (hsmall : sfd < aeSetsize) (hnew : s.heap d = none)
  (hempty : s.freeconns = []) (hrbuf : rbuf.length = 2048) (hpos : 0 < rbuf.length)

include hw hcell hlistens hopened hlimit hnone hsmall hnew hempty hrbuf

/-- A worker that drives a listening socket can accept a client and enter it in the table. -/
theorem select_registers :
    Run .select n (goes w (.driving fd c) s) (goes w (.adding fd c sfd d) { s with
      opened := Function.update s.opened sfd true
      heap := Function.update s.heap d (some (.fresh sfd rbuf hpos sent))
      freeconns := []
      conns := Function.update s.conns sfd (some d) }) := by
  have haccept : next .select n (goes w (.driving fd c) s) (w, .accept sfd) =
      some (goes w (.accepted fd c sfd) { s with opened := Function.update s.opened sfd true }) := by
    simp [next, hw, workerNext, goes, hcell, hlistens, hopened, hlimit]
  have hfill : ∀ s : Sys, s.freeconns = [] → s.heap d = none →
      next .select n (goes w (.accepted fd c sfd) s) (w, .conn d rbuf sent) =
        some (goes w (.filled fd c sfd d) { s with
          heap := Function.update s.heap d (some (.fresh sfd rbuf hpos sent))
          freeconns := [] }) := by
    intro s hempty hnew
    simp [next, hw, workerNext, goes, connNew, hempty, hnew, hrbuf]
  have hregister : ∀ s : Sys, s.conns sfd = none → next .select n (goes w (.filled fd c sfd d) s) (w, .go) =
      some (goes w (.adding fd c sfd d) { s with conns := Function.update s.conns sfd (some d) }) := by
    intro s hnone
    simp [next, hw, workerNext, goes, hsmall, hnone]
  have hrun : Run .select n (goes w (.driving fd c) s) _ :=
    Run.next (Run.next .start haccept) (hfill _ hempty hnew)
  exact hrun.next (hregister _ hnone)

/-- And then register it and go back to wait. -/
theorem select_accepts (hwatch : s.watch fd = .armed) (hconn : s.conns fd = some c) (hne : fd ≠ sfd) :
    Run .select n (goes w (.driving fd c) s) (goes w .waiting { s with
      opened := Function.update s.opened sfd true
      heap := Function.update s.heap d (some (.fresh sfd rbuf hpos sent))
      freeconns := []
      conns := Function.update s.conns sfd (some d)
      watch := Function.update s.watch sfd .armed
      maxfd := max (max s.maxfd sfd) fd }) := by
  have hcd : c ≠ d := by
    rintro rfl
    cases hcell.symm.trans hnew
  have hadded : ∀ s : Sys, next .select n (goes w (.adding fd c sfd d) s) (w, .go) =
      some (goes w (.driving fd c) { s with
        watch := Function.update s.watch sfd .armed
        maxfd := max s.maxfd sfd }) := by
    simp [next, hw, workerNext, goes, Api.addEvent]
  have hstop : ∀ s : Sys, s.heap c = some cell → next .select n (goes w (.driving fd c) s) (w, .noConnection) =
      some (goes w (.updating fd c) s) := by
    intro s hcell
    simp [next, hw, workerNext, goes, hcell, hlistens]
  have hupdate : ∀ s : Sys, s.conns fd = some c → next .select n (goes w (.updating fd c) s) (w, .go) =
      some (goes w (.arming fd c) s) := by
    intro s hconn
    have hsame : Function.update s.conns fd (some c) = s.conns := by rw [← hconn, Function.update_eq_self]
    simp [next, hw, workerNext, goes, hsame]
  have harm : ∀ s : Sys, s.watch fd = .armed → next .select n (goes w (.arming fd c) s) (w, .go) =
      some (goes w .waiting { s with maxfd := max s.maxfd fd }) := by
    intro s hwatch
    have hsame : Function.update s.watch fd .armed = s.watch := by rw [← hwatch, Function.update_eq_self]
    simp [next, hw, workerNext, goes, Api.updateEvent, hsame]
  have hrun := select_registers w fd c sfd d cell rbuf sent hw hcell hlistens hopened hlimit hnone hsmall hnew hempty
    hrbuf hpos
  have hstopped := (hrun.next (hadded _)).next (hstop _ ((Function.update_of_ne hcd ..).trans hcell))
  exact (hstopped.next (hupdate _ ((Function.update_of_ne hne ..).trans hconn))).next
    (harm _ ((Function.update_of_ne hne ..).trans hwatch))

end Accepts

/-- **A connection is what `drive_machine` alone makes of it**, whatever the workers do in between; and `select`
    stays within its sets. -/
theorem workers_sequential (hone : api = .epoll ∨ n ≤ 1) (hfits : api = .select → FitsSets ls limit maxfd)
    (h : Run api n (boot ls limit maxfd) s) (c : Nat) (cell : Cell) (hcell : s.heap c = some cell)
    (hclient : cell.listening = false) :
    (api = .select → s.InSets) ∧ ∃ (rbuf : Bytes) (hpos : 0 < rbuf.length),
      Reaches connNext (fun _ _ => True) (start rbuf hpos cell.sent) cell.world := by
  refine ⟨fun hapi => inSets_of_reaches hone (hfits hapi) h, ?_⟩
  obtain ⟨slot, pool, hinv⟩ := inv_of_reaches hone h
  obtain hx | ⟨cell', hcell', hseq⟩ := hinv.conn_held c
  · cases (hinv.pool_ok hx).symm.trans hcell
  · obtain rfl : cell' = cell := Option.some.inj (hcell'.symm.trans hcell)
    exact hseq hclient

/-- A client is accepted, and a system call for it returns. -/
theorem client_called {rbuf sent : Bytes} (hrbuf : rbuf.length = 2048) (hpos : 0 < rbuf.length) {e : Event}
    {world : World} (hcall : connNext (start rbuf hpos sent) e = some world) (hopen : world.conn.state ≠ .closing)
    (hstop : stops (start rbuf hpos sent) e = false) :
    ∃ s cell, Run .select 1 (boot singleListener 1024 0) s ∧ s.heap 1 = some cell ∧ cell.listening = false ∧
      cell.sent = sent ∧ cell.world = world := by
  have hturn := select_turn (s := boot singleListener 1024 0) 0 3 0 Nat.one_pos rfl rfl rfl rfl (by decide) rfl
  have haccepts := select_accepts (s := boot singleListener 1024 0) 0 3 0 4 1 (.listen 3) rbuf sent Nat.one_pos rfl rfl
    rfl (by decide) rfl (by decide) rfl rfl hrbuf hpos rfl rfl (by decide)
  have hrun := hturn.trans haccepts
  generalize hs : goes 0 .waiting _ = s at hrun
  have hcell : s.heap 1 = some (.fresh 4 rbuf hpos sent) := by
    rw [← hs]
    rfl
  have hagain : Run .select 1 s (goes 0 (.driving 4 1) s) := by
    refine select_turn 0 4 1 Nat.one_pos ?_ ?_ ?_ ?_ ?_ ?_
    all_goals rw [← hs]
    case refine_5 => exact le_max_of_le_left (le_max_right _ _)
    all_goals rfl
  have hcalling : next .select 1 (goes 0 (.driving 4 1) s) (0, .go) =
      some (goes 0 (.calling 4 1 (start rbuf hpos sent)) s) := by
    simp [next, workerNext, goes, hcell, Cell.fresh]
  have hreturns : next .select 1 (goes 0 (.calling 4 1 (start rbuf hpos sent)) s) (0, .returns e) =
      some (goes 0 (.driving 4 1) { s with
        heap := Function.update s.heap 1 (some ⟨some 4, false, sent, world⟩) }) := by
    simp [next, workerNext, goes, hcell, Cell.fresh, hcall, hopen, hstop]
  exact ⟨_, ⟨some 4, false, sent, world⟩, Run.next (Run.next (hrun.trans hagain) hcalling) hreturns, by simp [goes],
    rfl, rfl, rfl⟩

/-- What the client of the example sends. -/
def helloLine : Bytes := [0x68, 0x65, 0x6C, 0x6C, 0x6F, 0x0D, 0x0A]

/-- A client is accepted, and its line is read and taken. -/
theorem workers_sequential_hello :
    ∃ s cell, Run .select 1 (boot singleListener 1024 0) s ∧ s.heap 1 = some cell ∧ cell.sent = helloLine ∧
      cell.world.commands = [helloLine.take 5] ∧ (Api.select = .select → s.InSets) ∧
      ∃ (rbuf : Bytes) (hpos : 0 < rbuf.length),
        Reaches connNext (fun _ _ => True) (start rbuf hpos cell.sent) cell.world := by
  have hview : (connNext (start (List.replicate 2048 0) newBuffer_pos helloLine) (.read (.bytes helloLine))).map
      (fun w => (w.conn.state, w.commands)) = some (.read, [helloLine.take 5]) := by decide +kernel
  obtain ⟨world, hcall, hfacts⟩ := Option.map_eq_some_iff.mp hview
  obtain ⟨hstate, hcommands⟩ := Prod.mk.inj hfacts
  have hopen : world.conn.state ≠ .closing := by
    rw [hstate]
    decide
  obtain ⟨s, cell, hrun, hcell, hclient, hsent, rfl⟩ :=
    client_called List.length_replicate newBuffer_pos hcall hopen rfl
  exact ⟨s, cell, hrun, hcell, hsent, hcommands,
    workers_sequential (.inr (Nat.le_refl 1)) (fun _ => singleListener_fits) hrun 1 cell hcell hclient⟩

/-- Two workers take a connection, and one of them gives it back. -/
theorem select_given_back {s₀ : Sys} (w w' fd c : Nat) (cell : Cell) (hrun : Run .select n s₀ s) (hw : w < n)
    (hw' : w' < n) (hne : w ≠ w') (hp : s.workers w = .waiting) (hp' : s.workers w' = .waiting)
    (hleader : s.leader = none) (hfired : s.fired = []) (harmed : s.watch fd = .armed) (hscan : fd ≤ s.maxfd)
    (hconn : s.conns fd = some c) (hcell : s.heap c = some cell) (hclient : cell.listening = false)
    (hsfd : cell.sfd = some fd) (hsmall : fd < aeSetsize) (hstate : cell.world.conn.state ≠ .closing) :
    ∃ s', Run .select n s₀ s' ∧ s'.workers w' = .driving fd c ∧ (c ∈ s'.freeconns ∨ s'.heap c = none) := by
  have htwice := select_twice w w' fd c hw hw' hne hp hp' hleader hfired harmed hscan hconn
  have hdrives : (goes w' (.driving fd c) (goes w (.driving fd c) s)).workers w = .driving fd c :=
    (Function.update_of_ne hne ..).trans (Function.update_self ..)
  obtain ⟨s', hs', hothers, hgone⟩ := drives_to_end .select hw hdrives hcell hclient hsfd hsmall hstate
  exact ⟨s', (hrun.trans htwice).trans hs', (hothers w' hne.symm).trans (Function.update_self ..), hgone⟩

/-- What a client can be given at the start: a descriptor that is not in use, and a new structure. -/
theorem boot_free (ls : Listeners) (limit : Nat) (maxfd : Int) {sfd : Nat} (hothers : sfd ∉ ls.others)
    (hsockets : sfd ∉ ls.sockets.map Prod.fst) :
    ∃ fd c d, (boot ls limit maxfd).watch fd = .armed ∧ fd ≤ (boot ls limit maxfd).maxfd ∧
      (boot ls limit maxfd).conns fd = some c ∧ (boot ls limit maxfd).heap c = some (.listen fd) ∧
      (boot ls limit maxfd).opened sfd = false ∧ (boot ls limit maxfd).conns sfd = none ∧
      (boot ls limit maxfd).heap d = none ∧ fd ≠ sfd := by
  obtain ⟨p, ps, hps⟩ := List.exists_cons_of_ne_nil ls.listens
  have hp : p ∈ ls.sockets := hps ▸ List.mem_cons_self
  have hfd := find?_socket ls.fds hp
  have hconn := find?_socket ls.conns hp
  have hnone : ls.sockets.find? (fun q => q.1 == sfd) = none := by
    refine List.find?_eq_none.mpr fun q hq h => hsockets ?_
    exact List.mem_map.mpr ⟨q, hq, eq_of_beq h⟩
  obtain ⟨d, hd⟩ := Infinite.exists_notMem_finset (ls.sockets.map Prod.snd).toFinset
  have hfree : ls.sockets.find? (fun q => q.2 == d) = none := by
    refine List.find?_eq_none.mpr fun q hq h => hd (List.mem_toFinset.mpr ?_)
    exact List.mem_map.mpr ⟨q, hq, eq_of_beq h⟩
  refine ⟨p.1, p.2, d, by simp [boot, hfd], le_maxfd_boot hp, by simp [boot, hfd], by simp [boot, hconn],
    by simp [boot, hnone, hothers], by simp [boot, hnone], by simp [boot, hfree], fun h => hsockets ?_⟩
  exact List.mem_map.mpr ⟨p, hp, h⟩

/-- **With `select` a client can make the server write beyond its sets**: any client that is given a descriptor
    from `FD_SETSIZE` on, however many workers there are. -/
theorem select_beyond_sets (ls : Listeners) (limit : Nat) (maxfd : Int) (sfd : Nat) (hn : 1 ≤ n) (hlimit : sfd < limit)
    (hothers : sfd ∉ ls.others) (hsockets : sfd ∉ ls.sockets.map Prod.fst) (hlarge : fdSetsize ≤ sfd)
    (hsmall : sfd < aeSetsize) :
    ∃ s w, Run .select n (boot ls limit maxfd) s ∧ (s.workers w).setting = some sfd ∧ ¬ s.InSets := by
  obtain ⟨fd, c, d, hwatch, hscan, hconn, hcell, hopened, hnone, hnew, -⟩ := boot_free ls limit maxfd hothers hsockets
  obtain ⟨rbuf, hrbuf⟩ : ∃ rbuf : Bytes, rbuf.length = 2048 := ⟨List.replicate 2048 0, List.length_replicate⟩
  have hturn := select_turn 0 fd c hn rfl rfl rfl hwatch hscan hconn
  have hregisters := select_registers 0 fd c sfd d (.listen fd) rbuf [] hn hcell rfl hopened hlimit hnone hsmall hnew
    rfl hrbuf (by omega)
  refine ⟨_, 0, hturn.trans hregisters, by simp [goes, Worker.setting], fun hin => ?_⟩
  have hset := hin.2 0 sfd (by simp [goes, Worker.setting])
  exact absurd hset (Nat.not_lt_of_le hlarge)

/-- The 1021st client of a process that may have more descriptors than an `fd_set` holds. -/
theorem select_beyond_sets_1024 :
    ∃ s w, Run .select 1 (boot singleListener 4096 0) s ∧ (s.workers w).setting = some 1024 ∧ ¬ s.InSets :=
  select_beyond_sets singleListener 4096 0 1024 (Nat.le_refl 1) (by decide) (by decide) (by decide) (by decide)
    (by decide)

/-- **With `select` and two workers a connection can be driven after it was given back**, for whatever
    descriptor a client is given. -/
theorem select_used_after_free (ls : Listeners) (limit : Nat) (maxfd : Int) (sfd : Nat) (hn : 2 ≤ n)
    (hlimit : sfd < limit) (hothers : sfd ∉ ls.others) (hsockets : sfd ∉ ls.sockets.map Prod.fst)
    (hsmall : sfd < aeSetsize) :
    ∃ s w c, Run .select n (boot ls limit maxfd) s ∧ s.workers w = .driving sfd c ∧
      (c ∈ s.freeconns ∨ s.heap c = none) := by
  obtain ⟨fd, c, d, hwatch, hscan, hconn, hcell, hopened, hnone, hnew, hne⟩ := boot_free ls limit maxfd hothers hsockets
  obtain ⟨rbuf, hrbuf⟩ : ∃ rbuf : Bytes, rbuf.length = 2048 := ⟨List.replicate 2048 0, List.length_replicate⟩
  -- one worker accepts a client, then both take it
  have hn' : 0 < n := Nat.lt_of_succ_lt hn
  have hturn := select_turn 0 fd c hn' rfl rfl rfl hwatch hscan hconn
  have haccepts := select_accepts 0 fd c sfd d (.listen fd) rbuf [] hn' hcell rfl hopened hlimit hnone hsmall hnew rfl
    hrbuf (by omega) hwatch hconn hne
  obtain ⟨s, hs, hdrives, hgone⟩ := select_given_back 0 1 sfd d (.fresh sfd rbuf (by omega) [])
    (hturn.trans haccepts) hn' hn Nat.zero_ne_one (by simp [goes]) (by simp [goes, boot]) rfl rfl (by simp [goes])
    (le_max_of_le_left (le_max_right _ _)) (by simp [goes]) (by simp [goes]) rfl rfl hsmall
    (by simp [Cell.fresh, start])
  exact ⟨s, 1, d, hs, hdrives, hgone⟩

theorem select_used_after_free_two :
    ∃ s w c, Run .select 2 (boot singleListener 1024 0) s ∧ s.workers w = .driving 4 c ∧
      (c ∈ s.freeconns ∨ s.heap c = none) :=
  select_used_after_free singleListener 1024 0 4 (Nat.le_refl 2) (by decide) (by decide) (by decide) (by decide)

end Runs

end SmartHome.Dserver.Workers
