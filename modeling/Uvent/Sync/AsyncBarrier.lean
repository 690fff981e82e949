import Uvent.Lib.Custody
import Mathlib.Data.List.Perm.Basic
import Mathlib.Logic.Relation

/-!
# `AsyncBarrier`

The nodes of the waiters lie in the frames of their coroutines and are linked through
them.  The last party of a phase takes the whole list under the spinlock and walks it
behind, while coroutines that it has put into a run queue are resumed, give up their
nodes and arrive again.

A section under the spinlock is one step, and so is every access of the walk to a node.
Memory that belongs to no awaiter may change at any time.
-/

namespace Uvent.Sync.AsyncBarrier

open Uvent.Lib

structure Node where
  h : Nat
  next : Option Nat
  threadId : Int
  deriving DecidableEq, Repr

/-- Where a coroutine is in `co_await arrive_and_wait()`; its awaiter, with the node, lies
at `a`.  The last party walks the list: `walk` is at the test of the loop, `load` has
read `next`, and `spawn` has read the arguments of `resume_on`. -/
inductive Pc where
  | out
  | arriving (a : Nat)
  | waiting (a : Nat)
  | walk (a : Nat) (list : Option Nat)
  | load (a list : Nat) (next : Option Nat)
  | spawn (a h : Nat) (threadId : Int) (next : Option Nat)
  deriving DecidableEq, Repr

def Pc.addr : Pc → Option Nat
  | .out => none
  | .arriving a | .waiting a | .walk a _ | .load a _ _ | .spawn a _ _ _ => some a

def Pc.walking : Pc → Bool
  | .walk .. | .load .. | .spawn .. => true
  | _ => false

def Pc.active : Pc → Bool
  | .out | .arriving _ => false
  | _ => true

/-- `queue` has the handles in the run queues, each with the thread it is for.  The last
three fields are not of the program: how many arrivals there were, which was the last one
of each coroutine, and which arrivals have proceeded. -/
structure State where
  nodes : Nat → Node
  arrived : Nat
  waiters : Option Nat
  pcs : Nat → Pc
  queue : List (Nat × Int)
  arrivals : Nat
  ticket : Nat → Nat
  proceeded : List Nat

def State.new (nodes : Nat → Node) : State := ⟨nodes, 0, none, fun _ => .out, [], 0, fun _ => 0, []⟩

namespace State

def setPc (s : State) (t : Nat) (pc : Pc) : State := { s with pcs := Function.update s.pcs t pc }

def setNode (s : State) (a : Nat) (n : Node) : State :=
  { s with nodes := Function.update s.nodes a n }

/-- The awaiter at `a`, filled by `await_suspend` on thread `tid`. -/
def begin (s : State) (t a : Nat) (tid : Int) : State :=
  (s.setNode a ⟨t, none, tid⟩).setPc t (.arriving a)

def arrive (parties : Nat) (s : State) (t a : Nat) : State :=
  let s' := { s with
    arrivals := s.arrivals + 1, ticket := Function.update s.ticket t (s.arrivals + 1) }
  if s.arrived + 1 = parties then
    { s' with arrived := 0, waiters := none }.setPc t (.walk a s.waiters)
  else
    ({ s' with arrived := s.arrived + 1, waiters := some a }.setNode a
      { s.nodes a with next := s.waiters }).setPc t (.waiting a)

def proceed (s : State) (t : Nat) : State :=
  { s with proceeded := s.ticket t :: s.proceeded }.setPc t .out

def resumeOn (s : State) (h : Nat) (tid : Int) : State := { s with queue := s.queue ++ [(h, tid)] }

end State

inductive Inner (s : State) : State → Prop where
  | next (t a list : Nat) (h : s.pcs t = .walk a (some list)) :
      Inner s (s.setPc t (.load a list (s.nodes list).next))
  | load (t a list : Nat) (next : Option Nat) (h : s.pcs t = .load a list next) :
      Inner s (s.setPc t (.spawn a (s.nodes list).h (s.nodes list).threadId next))
  | spawn (t a h : Nat) (tid : Int) (next : Option Nat) (hpc : s.pcs t = .spawn a h tid next) :
      Inner s ((s.resumeOn h tid).setPc t (.walk a next))
  | finish (t a : Nat) (h : s.pcs t = .walk a none) : Inner s (s.proceed t)
  | resume (entry : Nat × Int) (h : entry ∈ s.queue) :
      Inner s ({ s with queue := s.queue.erase entry }.proceed entry.1)

inductive Step (parties : Nat) (s : State) : State → Prop where
  | begin (t a : Nat) (tid : Int) (h : s.pcs t = .out) (hfree : ∀ u, (s.pcs u).addr ≠ some a) :
      Step parties s (s.begin t a tid)
  | arrive (t a : Nat) (h : s.pcs t = .arriving a) : Step parties s (s.arrive parties t a)
  | inner (s' : State) (h : Inner s s') : Step parties s s'
  | scribble (a : Nat) (n : Node) (hfree : ∀ u, (s.pcs u).addr ≠ some a) :
      Step parties s (s.setNode a n)

inductive Runs (parties : Nat) : State → Prop where
  | start (nodes : Nat → Node) : Runs parties (.new nodes)
  | step {s s' : State} (hs : Runs parties s) (h : Step parties s s') : Runs parties s'

def State.complete (parties : Nat) (s : State) : Nat := s.arrivals / parties * parties

/-! ## The lists of waiters -/

/-- Where a waiting coroutine is: in the list of the barrier, in the hand of the coroutine
that walks, or in a run queue. -/
inductive Spot where
  | line
  | hand (t : Nat)
  | queue
  deriving DecidableEq

/-- The nodes from `head` on are those of the coroutines `l`, which wait. -/
def Linked (s : State) : Option Nat → List Nat → Prop
  | head, [] => head = none
  | head, u :: l =>
      ∃ a, head = some a ∧ s.pcs u = .waiting a ∧ (s.nodes a).h = u ∧ Linked s (s.nodes a).next l

def Grip (s : State) (l : List Nat) (pc : Pc) : Prop :=
  match pc with
  | .walk _ list => Linked s list l
  | .load _ list next => ∃ u rest, l = u :: rest ∧ s.pcs u = .waiting list ∧
      (s.nodes list).h = u ∧ Linked s next rest
  | .spawn _ h _ next => ∃ rest, l = h :: rest ∧ Linked s next rest
  | _ => l = []

def State.Active (s : State) (u : Nat) : Prop := (s.pcs u).active = true

/-- Every waiting coroutine is in one place, and the lists in memory are what they are
said to be. -/
structure Lists (s : State) (boxes : Spot → List Nat) : Prop where
  custody : Custody boxes
  queue : boxes .queue = s.queue.map Prod.fst
  waiting : ∀ u, (∃ i, u ∈ boxes i) ↔ ∃ a, s.pcs u = .waiting a
  owners : ∀ u v a, (s.pcs u).addr = some a → (s.pcs v).addr = some a → u = v
  filled : ∀ u a, s.pcs u = .arriving a → (s.nodes a).h = u
  line : Linked s s.waiters (boxes .line)
  hands : ∀ t, Grip s (boxes (.hand t)) (s.pcs t)

/-- The arrivals in the list are those of the phase that is not full, and whoever else is
on the way belongs to a full one. -/
structure Counts (parties : Nat) (s : State) (line : List Nat) : Prop where
  arrived : s.arrived = line.length
  arrived_lt : s.arrived < parties
  phase : s.arrivals % parties = s.arrived
  late : ∀ u ∈ line, s.complete parties < s.ticket u
  early : ∀ u, s.Active u → u ∉ line → s.ticket u ≤ s.complete parties
  tickets : ∀ u, s.Active u → 1 ≤ s.ticket u ∧ s.ticket u ≤ s.arrivals ∧ s.ticket u ∉ s.proceeded
  injective : ∀ u v, s.Active u → s.Active v → s.ticket u = s.ticket v → u = v
  covered : ∀ i, 1 ≤ i → i ≤ s.arrivals → i ∈ s.proceeded ∨ ∃ u, s.Active u ∧ s.ticket u = i
  nodup : s.proceeded.Nodup
  proceeded : ∀ i ∈ s.proceeded, 1 ≤ i ∧ i ≤ s.complete parties

def Inv (parties : Nat) (s : State) : Prop := ∃ boxes, Lists s boxes ∧ Counts parties s (boxes .line)

section Lists

variable {s s' : State} {head : Option Nat} {l : List Nat} {t : Nat}

/-- A list lives as long as its coroutines wait and their nodes stay. -/
theorem Linked.frame (h : Linked s head l)
    (hpcs : ∀ u ∈ l, ∀ a, s.pcs u = .waiting a → s'.pcs u = .waiting a ∧ s'.nodes a = s.nodes a) :
    Linked s' head l := by
  induction l generalizing head with
  | nil => exact h
  | cons u l ih =>
      obtain ⟨a, hhead, hpc, hh, hnext⟩ := h
      obtain ⟨hpc', hnode⟩ := hpcs u List.mem_cons_self a hpc
      refine ⟨a, hhead, hpc', by rw [hnode]; exact hh, ?_⟩
      rw [hnode]
      exact ih hnext fun v hv => hpcs v (List.mem_cons_of_mem u hv)

theorem Grip.frame {pc : Pc} (h : Grip s l pc)
    (hpcs : ∀ u ∈ l, ∀ a, s.pcs u = .waiting a → s'.pcs u = .waiting a ∧ s'.nodes a = s.nodes a) :
    Grip s' l pc := by
  unfold Grip at h ⊢
  split at h
  · exact h.frame hpcs
  · obtain ⟨u, rest, rfl, hwait, hh, hnext⟩ := h
    obtain ⟨hwait', hnode⟩ := hpcs u List.mem_cons_self _ hwait
    refine ⟨u, rest, rfl, hwait', by rw [hnode]; exact hh, ?_⟩
    exact hnext.frame fun v hv => hpcs v (List.mem_cons_of_mem u hv)
  · obtain ⟨rest, rfl, hnext⟩ := h
    exact ⟨rest, rfl, hnext.frame fun v hv => hpcs v (List.mem_cons_of_mem _ hv)⟩
  · exact h

/-- Only the last party of a phase has something in its hand. -/
theorem Grip.eq_nil {pc : Pc} (h : Grip s l pc) (hpc : pc.walking = false) : l = [] := by
  cases pc with
  | out => exact h
  | arriving a => exact h
  | waiting a => exact h
  | walk a list => exact absurd hpc nofun
  | load a list next => exact absurd hpc nofun
  | spawn a h tid next => exact absurd hpc nofun

end Lists

/-! ## What a step does to the lists -/

section Memory

variable {s s' : State} {boxes boxes' : Spot → List Nat} {t a : Nat} {pc : Pc} {n : Node}

theorem Lists.not_mem (h : Lists s boxes) (hpc : ∀ a, s.pcs t ≠ .waiting a) (i : Spot) :
    t ∉ boxes i := by
  intro hmem
  obtain ⟨a, ha⟩ := (h.waiting t).mp ⟨i, hmem⟩
  exact hpc a ha

theorem Lists.setNode (h : Lists s boxes) (hfree : ∀ u, (s.pcs u).addr ≠ some a) :
    Lists (s.setNode a n) boxes := by
  have hkept : ∀ u b, (s.pcs u).addr = some b → (s.setNode a n).nodes b = s.nodes b := by
    intro u b hb
    have hne : b ≠ a := fun heq => hfree u (by rw [hb, heq])
    exact Function.update_of_ne hne _ _
  have hframe : ∀ l : List Nat, ∀ u ∈ l, ∀ b, s.pcs u = .waiting b →
      (s.setNode a n).pcs u = .waiting b ∧ (s.setNode a n).nodes b = s.nodes b :=
    fun l u _ b hb => ⟨hb, hkept u b (by rw [hb]; rfl)⟩
  exact {
    custody := h.custody
    queue := h.queue
    waiting := h.waiting
    owners := h.owners
    filled := by
      intro u b hb
      rw [hkept u b (by rw [show s.pcs u = .arriving b from hb]; rfl)]
      exact h.filled u b hb
    line := h.line.frame (hframe _)
    hands := fun t => (h.hands t).frame (hframe _) }

theorem Lists.turn {p : Pc} (h : Lists s boxes) (hpcs : s'.pcs = Function.update s.pcs t p)
    (hnodes : s'.nodes = s.nodes) (hold : ∀ a, s.pcs t ≠ .waiting a) (hnew : ∀ a, p ≠ .waiting a)
    (howners : ∀ u a, u ≠ t → p.addr = some a → (s.pcs u).addr ≠ some a)
    (hfilled : ∀ a, p = .arriving a → (s.nodes a).h = t)
    (hcustody : Custody boxes') (hqueue : boxes' .queue = s'.queue.map Prod.fst)
    (hmem : ∀ u, (∃ i, u ∈ boxes' i) ↔ ∃ i, u ∈ boxes i)
    (hline : Linked s s'.waiters (boxes' .line))
    (hother : ∀ u, u ≠ t → boxes' (.hand u) = boxes (.hand u))
    (hgrip : Grip s (boxes' (.hand t)) p) : Lists s' boxes' := by
  have hstay : ∀ u, u ≠ t → s'.pcs u = s.pcs u := by
    intro u hu
    rw [hpcs, Function.update_of_ne hu]
  have hself : s'.pcs t = p := by
    rw [hpcs, Function.update_self]
  have hframe : ∀ l : List Nat, ∀ u ∈ l, ∀ b, s.pcs u = .waiting b →
      s'.pcs u = .waiting b ∧ s'.nodes b = s.nodes b := by
    intro l u _ b hb
    have hu : u ≠ t := fun heq => hold b (by rw [← heq]; exact hb)
    exact ⟨by rw [hstay u hu, hb], by rw [hnodes]⟩
  exact {
    custody := hcustody
    queue := hqueue
    waiting := by
      intro u
      rw [hmem, h.waiting]
      by_cases hu : u = t
      · rw [hu, hself]
        exact ⟨fun ⟨b, hb⟩ => absurd hb (hold b), fun ⟨b, hb⟩ => absurd hb (hnew b)⟩
      · rw [hstay u hu]
    owners := by
      intro u v b hu hv
      by_cases hut : u = t
      · by_cases hvt : v = t
        · rw [hut, hvt]
        · rw [hut, hself] at hu
          rw [hstay v hvt] at hv
          exact absurd hv (howners v b hvt hu)
      · rw [hstay u hut] at hu
        by_cases hvt : v = t
        · rw [hvt, hself] at hv
          exact absurd hu (howners u b hut hv)
        · rw [hstay v hvt] at hv
          exact h.owners u v b hu hv
    filled := by
      intro u b hb
      rw [hnodes]
      by_cases hu : u = t
      · rw [hu, hself] at hb
        rw [hu]
        exact hfilled b hb
      · rw [hstay u hu] at hb
        exact h.filled u b hb
    line := hline.frame (hframe _)
    hands := by
      intro u
      by_cases hu : u = t
      · rw [hu, hself]
        exact hgrip.frame (hframe _)
      · rw [hother u hu, hstay u hu]
        exact (h.hands u).frame (hframe _) }

theorem Lists.owners_of_addr (h : Lists s boxes) (haddr : pc.addr = (s.pcs t).addr) :
    ∀ u a, u ≠ t → pc.addr = some a → (s.pcs u).addr ≠ some a := by
  intro u b hu hb hub
  rw [haddr] at hb
  exact hu (h.owners u t b hub hb)

theorem Lists.begin (h : Lists s boxes) (hpc : s.pcs t = .out)
    (hfree : ∀ u, (s.pcs u).addr ≠ some a) (tid : Int) : Lists (s.begin t a tid) boxes := by
  have hset := h.setNode (n := ⟨t, none, tid⟩) hfree
  have hgrip := (h.hands t).eq_nil (by rw [hpc]; rfl)
  refine hset.turn (t := t) (p := .arriving a) rfl rfl ?_ nofun ?_ ?_ h.custody h.queue
    (fun _ => Iff.rfl) hset.line (fun _ _ => rfl) ?_
  · intro b hb
    exact absurd (hpc.symm.trans hb) nofun
  · intro u b _ hb hub
    cases hb
    exact hfree u hub
  · intro b hb
    cases hb
    change (Function.update s.nodes a ⟨t, none, tid⟩ a).h = t
    rw [Function.update_self]
  · exact hgrip

/-! ### The walk -/

theorem Lists.next {list : Nat} (h : Lists s boxes) (hpc : s.pcs t = .walk a (some list)) :
    Lists (s.setPc t (.load a list (s.nodes list).next)) boxes := by
  have hgrip := h.hands t
  rw [hpc] at hgrip
  refine h.turn rfl rfl (by rw [hpc]; nofun) nofun (h.owners_of_addr (by rw [hpc]; rfl)) nofun
    h.custody h.queue (fun _ => Iff.rfl) h.line (fun _ _ => rfl) ?_
  cases hbox : boxes (.hand t) with
  | nil =>
      rw [hbox] at hgrip
      exact absurd hgrip nofun
  | cons u rest =>
      rw [hbox] at hgrip
      obtain ⟨b, hb, hwait, hh, hnext⟩ := hgrip
      cases hb
      exact ⟨u, rest, rfl, hwait, hh, hnext⟩

theorem Lists.load {list : Nat} {next : Option Nat} (h : Lists s boxes)
    (hpc : s.pcs t = .load a list next) :
    Lists (s.setPc t (.spawn a (s.nodes list).h (s.nodes list).threadId next)) boxes := by
  have hgrip := h.hands t
  rw [hpc] at hgrip
  obtain ⟨u, rest, hbox, -, hh, hnext⟩ := hgrip
  refine h.turn rfl rfl (by rw [hpc]; nofun) nofun (h.owners_of_addr (by rw [hpc]; rfl)) nofun
    h.custody h.queue (fun _ => Iff.rfl) h.line (fun _ _ => rfl) ?_
  exact ⟨rest, by rw [hbox, hh], hnext⟩

def spawned (boxes : Spot → List Nat) (t u : Nat) (rest : List Nat) : Spot → List Nat :=
  Function.update (Function.update boxes (.hand t) rest) .queue (boxes .queue ++ [u])

theorem spawned_line (boxes : Spot → List Nat) (t u : Nat) (rest : List Nat) :
    spawned boxes t u rest .line = boxes .line := by
  rw [spawned, Function.update_of_ne (by nofun), Function.update_of_ne (by nofun)]

theorem Lists.spawn {u : Nat} {tid : Int} {next : Option Nat} {rest : List Nat}
    (h : Lists s boxes) (hpc : s.pcs t = .spawn a u tid next)
    (hbox : boxes (.hand t) = u :: rest) (hnext : Linked s next rest) :
    Lists ((s.resumeOn u tid).setPc t (.walk a next)) (spawned boxes t u rest) := by
  have hqueue : spawned boxes t u rest .queue = boxes .queue ++ [u] := Function.update_self ..
  have hhand : spawned boxes t u rest (.hand t) = rest := by
    rw [spawned, Function.update_of_ne (by nofun), Function.update_self]
  have hother : ∀ i, i ≠ .hand t → i ≠ .queue → spawned boxes t u rest i = boxes i := by
    intro i hi hi'
    rw [spawned, Function.update_of_ne hi', Function.update_of_ne hi]
  refine h.turn (t := t) (p := .walk a next) rfl rfl (by rw [hpc]; nofun) nofun
    (h.owners_of_addr (by rw [hpc]; rfl)) nofun ?_ ?_ ?_ ?_ ?_ ?_
  · apply h.custody.move (i := .hand t) (j := .queue) (by nofun) _ hother
    rw [hqueue, hhand, hbox, ← List.append_assoc]
    exact List.perm_append_comm
  · rw [hqueue, h.queue]
    change _ = (s.queue ++ [(u, tid)]).map Prod.fst
    rw [List.map_append]
    rfl
  · -- who is in a box stays in one
    intro v
    constructor
    · rintro ⟨i, hi⟩
      by_cases hq : i = .queue
      · rw [hq, hqueue, List.mem_append, List.mem_singleton] at hi
        obtain hold | rfl := hi
        · exact ⟨.queue, hold⟩
        · exact ⟨.hand t, by rw [hbox]; exact List.mem_cons_self⟩
      · by_cases ht : i = .hand t
        · rw [ht, hhand] at hi
          exact ⟨.hand t, by rw [hbox]; exact List.mem_cons_of_mem u hi⟩
        · rw [hother i ht hq] at hi
          exact ⟨i, hi⟩
    · rintro ⟨i, hi⟩
      by_cases hq : i = .queue
      · rw [hq] at hi
        exact ⟨.queue, by rw [hqueue]; exact List.mem_append_left _ hi⟩
      · by_cases ht : i = .hand t
        · rw [ht, hbox, List.mem_cons] at hi
          obtain rfl | hi := hi
          · exact ⟨.queue, by rw [hqueue]; exact List.mem_append_right _ List.mem_cons_self⟩
          · exact ⟨.hand t, by rw [hhand]; exact hi⟩
        · exact ⟨i, by rw [hother i ht hq]; exact hi⟩
  · rw [hother .line (by nofun) (by nofun)]
    exact h.line
  · intro v hv
    exact hother (.hand v) (by intro heq; cases heq; exact hv rfl) (by nofun)
  · rw [hhand]
    exact hnext

/-- The last party is through with its walk. -/
theorem Lists.finish (h : Lists s boxes) (hpc : s.pcs t = .walk a none) :
    Lists (s.proceed t) boxes := by
  have hgrip := h.hands t
  rw [hpc] at hgrip
  refine h.turn (t := t) (p := .out) rfl rfl (by rw [hpc]; nofun) nofun nofun nofun
    h.custody h.queue (fun _ => Iff.rfl) h.line (fun _ _ => rfl) ?_
  cases hbox : boxes (.hand t) with
  | nil => rfl
  | cons u rest =>
      rw [hbox] at hgrip
      obtain ⟨b, hb, -⟩ := hgrip
      exact absurd hb nofun

theorem Lists.resume {entry : Nat × Int} (h : Lists s boxes) (hentry : entry ∈ s.queue) :
    Lists ({ s with queue := s.queue.erase entry }.proceed entry.1)
      (Function.update boxes .queue ((s.queue.erase entry).map Prod.fst)) := by
  have hperm : ((entry :: s.queue.erase entry).map Prod.fst).Perm (boxes .queue) := by
    rw [h.queue]
    exact ((List.perm_cons_erase hentry).map Prod.fst).symm
  have hmem : entry.1 ∈ boxes .queue := hperm.subset List.mem_cons_self
  have hgone : entry.1 ∉ (s.queue.erase entry).map Prod.fst :=
    (List.nodup_cons.mp (hperm.nodup_iff.mpr (h.custody.nodup .queue))).1
  have hother : ∀ i, i ≠ .queue →
      Function.update boxes .queue ((s.queue.erase entry).map Prod.fst) i = boxes i :=
    fun i hi => Function.update_of_ne hi _ _
  have hqueue : Function.update boxes .queue ((s.queue.erase entry).map Prod.fst) .queue =
      (s.queue.erase entry).map Prod.fst := Function.update_self ..
  -- the coroutine is in no other box, so the lists go on without it
  have hout : ∀ i, i ≠ .queue → entry.1 ∉ boxes i :=
    fun i hi hin => hi (h.custody.unique i .queue _ hin hmem)
  obtain ⟨b, hb⟩ := (h.waiting entry.1).mp ⟨.queue, hmem⟩
  have hstay : ∀ u, u ≠ entry.1 → Function.update s.pcs entry.1 Pc.out u = s.pcs u :=
    fun u hu => Function.update_of_ne hu _ _
  have hself : Function.update s.pcs entry.1 Pc.out entry.1 = .out := Function.update_self ..
  have hframe : ∀ i, i ≠ .queue → ∀ u ∈ boxes i, ∀ c, s.pcs u = .waiting c →
      Function.update s.pcs entry.1 Pc.out u = .waiting c ∧ s.nodes c = s.nodes c := by
    intro i hi u hu c hc
    have hne : u ≠ entry.1 := fun heq => hout i hi (by rw [← heq]; exact hu)
    exact ⟨by rw [hstay u hne]; exact hc, rfl⟩
  have hmems : ∀ u, u ≠ entry.1 → (u ∈ boxes .queue ↔ u ∈ (s.queue.erase entry).map Prod.fst) := by
    intro u hu
    rw [← hperm.mem_iff, List.map_cons, List.mem_cons]
    exact ⟨fun hin => hin.resolve_left hu, Or.inr⟩
  exact {
    custody := by
      apply h.custody.sublist
      intro i
      by_cases hi : i = .queue
      · rw [hi, hqueue, h.queue]
        exact List.erase_sublist.map Prod.fst
      · rw [hother i hi]
    queue := hqueue
    waiting := by
      intro u
      by_cases hu : u = entry.1
      · constructor
        · rintro ⟨i, hi⟩
          rw [hu] at hi
          by_cases hq : i = .queue
          · rw [hq, hqueue] at hi
            exact absurd hi hgone
          · rw [hother i hq] at hi
            exact absurd hi (hout i hq)
        · rintro ⟨c, hc⟩
          rw [hu] at hc
          exact absurd (hself.symm.trans hc) nofun
      · change _ ↔ ∃ c, Function.update s.pcs entry.1 Pc.out u = .waiting c
        rw [hstay u hu, ← h.waiting]
        constructor
        · rintro ⟨i, hi⟩
          by_cases hq : i = .queue
          · rw [hq, hqueue, ← hmems u hu] at hi
            exact ⟨.queue, hi⟩
          · rw [hother i hq] at hi
            exact ⟨i, hi⟩
        · rintro ⟨i, hi⟩
          by_cases hq : i = .queue
          · rw [hq, hmems u hu] at hi
            exact ⟨.queue, by rw [hqueue]; exact hi⟩
          · exact ⟨i, by rw [hother i hq]; exact hi⟩
    owners := by
      intro u v c hu hv
      have hne : ∀ w, (Function.update s.pcs entry.1 Pc.out w).addr = some c → w ≠ entry.1 := by
        intro w hw heq
        rw [heq, hself] at hw
        exact absurd hw nofun
      have hu' : (Function.update s.pcs entry.1 Pc.out u).addr = some c := hu
      have hv' : (Function.update s.pcs entry.1 Pc.out v).addr = some c := hv
      rw [hstay u (hne u hu')] at hu'
      rw [hstay v (hne v hv')] at hv'
      exact h.owners u v c hu' hv'
    filled := by
      intro u c hc
      have hc' : Function.update s.pcs entry.1 Pc.out u = .arriving c := hc
      by_cases hu : u = entry.1
      · rw [hu, hself] at hc'
        exact absurd hc' nofun
      · rw [hstay u hu] at hc'
        exact h.filled u c hc'
    line := by
      rw [hother .line (by nofun)]
      exact h.line.frame (hframe .line (by nofun))
    hands := by
      intro u
      rw [hother (.hand u) (by nofun)]
      change Grip _ _ (Function.update s.pcs entry.1 Pc.out u)
      by_cases hu : u = entry.1
      · have hgrip := h.hands u
        rw [hu, hb] at hgrip
        rw [hu, hself]
        exact hgrip.eq_nil rfl
      · rw [hstay u hu]
        exact (h.hands u).frame (hframe (.hand u) (by nofun)) }

/-! ### The section under the lock -/

theorem Lists.push (h : Lists s boxes) (hpc : s.pcs t = .arriving a)
    (hpcs : s'.pcs = Function.update s.pcs t (.waiting a))
    (hnodes : s'.nodes = Function.update s.nodes a { s.nodes a with next := s.waiters })
    (hwaiters : s'.waiters = some a) (hqueue : s'.queue = s.queue) :
    Lists s' (Function.update boxes .line (t :: boxes .line)) := by
  have hnew := h.not_mem (t := t) (by rw [hpc]; nofun)
  have hstay : ∀ u, u ≠ t → s'.pcs u = s.pcs u := by
    intro u hu
    rw [hpcs, Function.update_of_ne hu]
  have hself : s'.pcs t = .waiting a := by
    rw [hpcs, Function.update_self]
  have hother : ∀ i, i ≠ .line → Function.update boxes .line (t :: boxes .line) i = boxes i :=
    fun i hi => Function.update_of_ne hi _ _
  have hline : Function.update boxes .line (t :: boxes .line) .line = t :: boxes .line :=
    Function.update_self ..
  have howner : ∀ u b, u ≠ t → (s.pcs u).addr = some b → b ≠ a := by
    intro u b hu hb heq
    exact hu (h.owners u t a (by rw [hb, heq]) (by rw [hpc]; rfl))
  have hframe : ∀ i, ∀ u ∈ boxes i, ∀ b, s.pcs u = .waiting b →
      s'.pcs u = .waiting b ∧ s'.nodes b = s.nodes b := by
    intro i u hu b hb
    have hne : u ≠ t := fun heq => hnew i (by rw [← heq]; exact hu)
    rw [hstay u hne, hnodes, Function.update_of_ne (howner u b hne (by rw [hb]; rfl))]
    exact ⟨hb, rfl⟩
  exact {
    custody := by
      apply h.custody.add hnew (i := .line) _ hother
      rw [hline]
    queue := by
      rw [hother .queue (by nofun), hqueue]
      exact h.queue
    waiting := by
      intro u
      by_cases hu : u = t
      · rw [hu, hself]
        exact ⟨fun _ => ⟨a, rfl⟩, fun _ => ⟨.line, by rw [hline]; exact List.mem_cons_self⟩⟩
      · rw [hstay u hu, ← h.waiting]
        constructor
        · rintro ⟨i, hi⟩
          by_cases hl : i = .line
          · rw [hl, hline, List.mem_cons] at hi
            exact ⟨.line, hi.resolve_left hu⟩
          · rw [hother i hl] at hi
            exact ⟨i, hi⟩
        · rintro ⟨i, hi⟩
          by_cases hl : i = .line
          · rw [hl] at hi
            exact ⟨.line, by rw [hline]; exact List.mem_cons_of_mem t hi⟩
          · exact ⟨i, by rw [hother i hl]; exact hi⟩
    owners := by
      have haddr : ∀ u, (s'.pcs u).addr = (s.pcs u).addr := by
        intro u
        by_cases hu : u = t
        · rw [hu, hself, hpc]
          rfl
        · rw [hstay u hu]
      intro u v b hu hv
      rw [haddr] at hu hv
      exact h.owners u v b hu hv
    filled := by
      intro u b hb
      by_cases hu : u = t
      · rw [hu, hself] at hb
        exact absurd hb nofun
      · rw [hstay u hu] at hb
        rw [hnodes, Function.update_of_ne (howner u b hu (by rw [hb]; rfl))]
        exact h.filled u b hb
    line := by
      rw [hline, hwaiters]
      refine ⟨a, rfl, hself, ?_, ?_⟩
      · rw [hnodes, Function.update_self]
        exact h.filled t a hpc
      · rw [hnodes, Function.update_self]
        exact h.line.frame (hframe .line)
    hands := by
      intro u
      rw [hother (.hand u) (by nofun)]
      by_cases hu : u = t
      · have hgrip := h.hands u
        rw [hu, hpc] at hgrip
        rw [hu, hself]
        exact hgrip
      · rw [hstay u hu]
        exact (h.hands u).frame (hframe (.hand u)) }

theorem Lists.detach (h : Lists s boxes) (hpc : s.pcs t = .arriving a)
    (hpcs : s'.pcs = Function.update s.pcs t (.walk a s.waiters)) (hnodes : s'.nodes = s.nodes)
    (hwaiters : s'.waiters = none) (hqueue : s'.queue = s.queue) :
    Lists s' (Function.update (Function.update boxes .line []) (.hand t) (boxes .line)) := by
  have hnil : boxes (.hand t) = [] := by
    have hgrip := h.hands t
    rw [hpc] at hgrip
    exact hgrip
  have hhand : Function.update (Function.update boxes .line []) (.hand t) (boxes .line) (.hand t) =
      boxes .line := Function.update_self ..
  have hline : Function.update (Function.update boxes .line []) (.hand t) (boxes .line) .line =
      [] := by
    rw [Function.update_of_ne (by nofun), Function.update_self]
  have hother : ∀ i, i ≠ .line → i ≠ .hand t →
      Function.update (Function.update boxes .line []) (.hand t) (boxes .line) i = boxes i := by
    intro i hi hi'
    rw [Function.update_of_ne hi', Function.update_of_ne hi]
  refine h.turn hpcs hnodes (by rw [hpc]; nofun) nofun (h.owners_of_addr (by rw [hpc]; rfl)) nofun
    ?_ ?_ ?_ ?_ ?_ ?_
  · apply h.custody.move (i := .line) (j := .hand t) (by nofun) _ hother
    rw [hline, hhand, hnil, List.append_nil, List.nil_append]
  · rw [hother .queue (by nofun) (by nofun), hqueue]
    exact h.queue
  · intro u
    constructor
    · rintro ⟨i, hi⟩
      by_cases hl : i = .line
      · rw [hl, hline] at hi
        exact absurd hi List.not_mem_nil
      · by_cases ht : i = .hand t
        · rw [ht, hhand] at hi
          exact ⟨.line, hi⟩
        · rw [hother i hl ht] at hi
          exact ⟨i, hi⟩
    · rintro ⟨i, hi⟩
      by_cases hl : i = .line
      · rw [hl] at hi
        exact ⟨.hand t, by rw [hhand]; exact hi⟩
      · by_cases ht : i = .hand t
        · rw [ht, hnil] at hi
          exact absurd hi List.not_mem_nil
        · exact ⟨i, by rw [hother i hl ht]; exact hi⟩
  · rw [hline, hwaiters]
    rfl
  · intro u hu
    exact hother (.hand u) (by nofun) (by intro heq; cases heq; exact hu rfl)
  · rw [hhand]
    exact h.line

end Memory

end Uvent.Sync.AsyncBarrier
