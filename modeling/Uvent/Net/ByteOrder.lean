import Uvent.Lib.Custody
import Uvent.Net.MultishotRecv

/-!
# The order of the bytes

What the calls have delivered, what waits in segments and completions and what the kernel has
not handed out make up the stream, in this order, when no direct receive overtakes the
multishot one.
-/

namespace Uvent.Net.Uring

open Uvent.Lib

variable {α : Type} {bufRing : Bool} {s s' : State α} {e : Event} {base base' : Nat → List α}
  {l l' : List Seg}

inductive Holder where
  | kernel
  | queue
  | cqes
  | others
  deriving DecidableEq, Repr

def State.boxes (s : State α) : Holder → List Nat
  | .kernel => s.bufs
  | .queue => s.op.segs.toList.map Seg.bid
  | .cqes => (cqeSegs s.cqes).map Seg.bid
  | .others => s.lent

structure Books (s : State α) : Prop where
  custody : Custody s.boxes
  live : ∀ x ∈ s.op.segs.toList ++ cqeSegs s.cqes, x.Live s.base

theorem books_new {bufs : List Nat} (h : bufs.Nodup) (fdOpen : Bool) :
    Books (State.new bufs fdOpen : State α) where
  custody := by
    refine ⟨fun b => ?_, fun b b' a hb hb' => ?_⟩
    · cases b with
      | kernel => exact h
      | queue | cqes | others => exact List.nodup_nil
    · cases b with
      | kernel =>
          cases b' with
          | kernel => rfl
          | queue | cqes | others => cases hb'
      | queue | cqes | others => cases hb
  live x hx := absurd hx List.not_mem_nil

/-! ### Contents of buffers -/

theorem Seg.live_congr {x : Seg} (hbase : base' x.bid = base x.bid) (h : x.Live base) :
    x.Live base' := ⟨h.left, hbase ▸ h.stored⟩

theorem segBytes_congr (hbase : ∀ x ∈ l, base' x.bid = base x.bid) :
    segBytes base' l = segBytes base l := by
  induction l with
  | nil => rfl
  | cons x l ih =>
      rw [segBytes_cons, segBytes_cons, ih fun y hy => hbase y (List.mem_cons_of_mem _ hy)]
      unfold Seg.bytes
      rw [hbase x List.mem_cons_self]

theorem Books.apart (h : Books s) {b : Nat} (hb : b ∈ s.bufs) :
    ∀ x ∈ s.op.segs.toList ++ cqeSegs s.cqes, x.bid ≠ b := by
  rintro x hx rfl
  rcases List.mem_append.mp hx with hx | hx
  · cases h.custody.unique .kernel .queue x.bid hb (List.mem_map_of_mem hx)
  · cases h.custody.unique .kernel .cqes x.bid hb (List.mem_map_of_mem hx)

/-- The kernel fills a buffer: what waits in the others is not changed. -/
theorem Books.filled (h : Books s) {b : Nat} (hb : b ∈ s.bufs) (bytes : List α) :
    ∀ x ∈ s.op.segs.toList ++ cqeSegs s.cqes, Function.update s.base b bytes x.bid = s.base x.bid :=
  fun x hx => Function.update_of_ne (h.apart hb x hx) ..

structure SameBytes (s s' : State α) : Prop where
  base : s'.base = s.base
  segs : s'.op.segs = s.op.segs
  cqes : cqeSegs s'.cqes = cqeSegs s.cqes
  bufs : s'.bufs = s.bufs
  lent : s'.lent = s.lent

theorem Books.pass (h : Books s) (hsame : SameBytes s s') : Books s' := by
  obtain ⟨hbase, hsegs, hcqes, hbufs, hlent⟩ := hsame
  have hboxes : s'.boxes = s.boxes := by
    funext b
    cases b with
    | kernel => exact hbufs
    | queue =>
        show s'.op.segs.toList.map Seg.bid = _
        rw [hsegs]
        rfl
    | cqes =>
        show (cqeSegs s'.cqes).map Seg.bid = _
        rw [hcqes]
        rfl
    | others => exact hlent
  refine ⟨?_, ?_⟩
  · rw [hboxes]
    exact h.custody
  · rw [hsegs, hcqes, hbase]
    exact h.live

theorem cqeSegs_append (cqes : List Cqe) (c : Cqe) : cqeSegs (cqes ++ [c]) = cqeSegs cqes ++ c.seg := by
  unfold cqeSegs
  rw [List.flatMap_append, List.flatMap_singleton]

theorem cqeSegs_cons (c : Cqe) (cqes : List Cqe) : cqeSegs (c :: cqes) = c.seg ++ cqeSegs cqes :=
  List.flatMap_cons

theorem Books.fill (h : Books s) {b n : Nat} {rest : List Nat} (buffer : s.bufs = b :: rest)
    (some : 0 < n) (there : n ≤ s.source.length) (more : Bool) : Books (s.fill b n more) := by
  have hb : b ∈ s.bufs := buffer ▸ List.mem_cons_self
  have hcqes : cqeSegs (s.fill b n more).cqes = cqeSegs s.cqes ++ [⟨n, 0, b⟩] := cqeSegs_append ..
  refine ⟨?_, fun x hx => ?_⟩
  · have hne : Holder.kernel ≠ .cqes := nofun
    refine h.custody.move hne ?_ fun k h₁ h₂ => ?_
    · show (s.bufs.tail ++ (cqeSegs (s.fill b n more).cqes).map Seg.bid).Perm
        (s.bufs ++ (cqeSegs s.cqes).map Seg.bid)
      rw [hcqes, buffer, List.map_append, ← List.append_assoc]
      exact List.perm_append_singleton b _
    · cases k with
      | kernel => exact absurd rfl h₁
      | cqes => exact absurd rfl h₂
      | queue | others => rfl
  · have hx' : x ∈ (s.op.segs.toList ++ cqeSegs s.cqes) ++ [⟨n, 0, b⟩] := by
      rw [List.append_assoc, ← hcqes]
      exact hx
    show x.Live (Function.update s.base b (s.source.take n))
    rcases List.mem_append.mp hx' with hx' | hx'
    · exact Seg.live_congr (h.filled hb _ x hx') (h.live x hx')
    · rw [List.mem_singleton.mp hx']
      refine ⟨some, ?_⟩
      rw [Function.update_self, List.length_take, Nat.min_eq_left there]

theorem Books.handle (h : Books s) {c : Cqe} {rest : List Cqe} (next : s.cqes = c :: rest)
    (hbase : s'.base = s.base) (hsegs : s'.op.segs.toList = s.op.segs.toList ++ c.seg)
    (hcqes : s'.cqes = rest) (hbufs : s'.bufs = s.bufs) (hlent : s'.lent = s.lent) : Books s' := by
  have hall : s'.op.segs.toList ++ cqeSegs s'.cqes = s.op.segs.toList ++ cqeSegs s.cqes := by
    rw [hsegs, hcqes, next, cqeSegs_cons, List.append_assoc]
  refine ⟨?_, ?_⟩
  · have hne : Holder.queue ≠ .cqes := nofun
    refine h.custody.move hne ?_ fun k h₁ h₂ => ?_
    · show (s'.op.segs.toList.map Seg.bid ++ (cqeSegs s'.cqes).map Seg.bid).Perm _
      rw [← List.map_append, hall, List.map_append]
      exact List.Perm.refl _
    · cases k with
      | queue => exact absurd rfl h₁
      | cqes => exact absurd rfl h₂
      | kernel => exact hbufs
      | others => exact hlent
  · rw [hall, hbase]
    exact h.live

theorem Books.recycle (h : Books s) {bids : List Nat} (hbase : s'.base = s.base)
    (hbids : bids ++ s'.op.segs.toList.map Seg.bid = s.op.segs.toList.map Seg.bid)
    (hlive : ∀ x ∈ s'.op.segs.toList, x.Live s.base) (hcqes : s'.cqes = s.cqes)
    (hbufs : s'.bufs = s.bufs ++ bids) (hlent : s'.lent = s.lent) : Books s' := by
  refine ⟨?_, fun x hx => ?_⟩
  · have hne : Holder.kernel ≠ .queue := nofun
    refine h.custody.move hne ?_ fun k h₁ h₂ => ?_
    · show (s'.bufs ++ s'.op.segs.toList.map Seg.bid).Perm
        (s.bufs ++ s.op.segs.toList.map Seg.bid)
      rw [hbufs, List.append_assoc, hbids]
    · cases k with
      | kernel => exact absurd rfl h₁
      | queue => exact absurd rfl h₂
      | cqes =>
          show (cqeSegs s'.cqes).map Seg.bid = _
          rw [hcqes]
          rfl
      | others => exact hlent
  · rw [hbase]
    rcases List.mem_append.mp hx with hx | hx
    · exact hlive x hx
    · rw [hcqes] at hx
      exact h.live x (List.mem_append_right _ hx)

theorem popFront_iterate (n : Nat) (q : SegQueue) :
    ((SegQueue.popFront)^[n] q).toList = q.toList.drop n := by
  induction n generalizing q with
  | zero => rfl
  | succ n ih =>
      rw [Function.iterate_succ_apply, ih, SegQueue.popFront_toList, List.drop_tail]

theorem Books.destroy (h : Books s) : Books s.destroy := by
  have hempty : s.destroy.op.segs.toList = [] := by
    show ((SegQueue.popFront)^[s.op.segs.toList.length] s.op.segs).toList = []
    rw [popFront_iterate, List.drop_length]
  have hbids : s.op.segs.toList.map Seg.bid ++ s.destroy.op.segs.toList.map Seg.bid =
      s.op.segs.toList.map Seg.bid := by
    rw [hempty, List.map_nil, List.append_nil]
  refine h.recycle rfl hbids ?_ rfl rfl rfl
  rw [hempty]
  exact fun x hx => absurd hx List.not_mem_nil

theorem Books.lend (h : Books s) {b : Nat} {rest : List Nat} (buffer : s.bufs = b :: rest)
    (bytes : List α) :
    Books
      { s with base := Function.update s.base b bytes, bufs := rest, lent := b :: s.lent } := by
  refine ⟨?_, fun x hx => ?_⟩
  · have hne : Holder.kernel ≠ .others := nofun
    refine h.custody.move hne ?_ fun k h₁ h₂ => ?_
    · show (rest ++ b :: s.lent).Perm (s.bufs ++ s.lent)
      rw [buffer]
      exact List.perm_middle
    · cases k with
      | kernel => exact absurd rfl h₁
      | others => exact absurd rfl h₂
      | queue | cqes => rfl
  · exact Seg.live_congr (h.filled (buffer ▸ List.mem_cons_self) bytes x hx) (h.live x hx)

theorem Books.giveBack (h : Books s) {b : Nat} (lent : b ∈ s.lent) :
    Books { s with bufs := s.bufs ++ [b], lent := s.lent.erase b } := by
  refine ⟨?_, h.live⟩
  have hne : Holder.kernel ≠ .others := nofun
  refine h.custody.move hne ?_ fun k h₁ h₂ => ?_
  · show (s.bufs ++ [b] ++ s.lent.erase b).Perm (s.bufs ++ s.lent)
    rw [List.append_assoc]
    exact (List.perm_cons_erase lent).symm.append_left _
  · cases k with
    | kernel => exact absurd rfl h₁
    | others => exact absurd rfl h₂
    | queue | cqes => rfl

/-! ### Which path a socket takes -/

def Reader.multishot : Reader α → Bool
  | .loop _ | .await _ | .suspended _ | .resumed _ => true
  | _ => false

def Reader.plain : Reader α → Bool
  | .recv _ | .received _ => true
  | _ => false

/-- A worker with a ring of buffers makes no plain receive, and one without has no multishot
receive. -/
structure OnePath (bufRing : Bool) (s : State α) : Prop where
  ring : bufRing = true → s.reader.plain = false
  plain : bufRing = false → s.reader.multishot = false ∧ s.op.segs.toList = [] ∧ s.cqes = [] ∧
    s.kernel = false

theorem onePath_new (bufs : List Nat) (fdOpen : Bool) :
    OnePath bufRing (State.new bufs fdOpen : State α) :=
  ⟨fun _ => rfl, fun _ => ⟨rfl, rfl, rfl, rfl⟩⟩

theorem OnePath.pass (h : OnePath bufRing s) (hsegs : s'.op.segs = s.op.segs)
    (hcqes : s'.cqes = s.cqes) (hkernel : s'.kernel = s.kernel)
    (hplain : s'.reader.plain = true → s.reader.plain = true ∨ bufRing = false)
    (hmulti : s'.reader.multishot = true → s.reader.multishot = true ∨ bufRing = true) :
    OnePath bufRing s' := by
  refine ⟨fun hring => ?_, fun hring => ?_⟩
  · by_contra hcontra
    rcases hplain (Bool.not_eq_false _ ▸ hcontra) with hp | hp
    · rw [h.ring hring] at hp
      cases hp
    · rw [hring] at hp
      cases hp
  · obtain ⟨hm, hrest⟩ := h.plain hring
    rw [hsegs, hcqes, hkernel]
    refine ⟨?_, hrest⟩
    by_contra hcontra
    rcases hmulti (Bool.not_eq_false _ ▸ hcontra) with hp | hp
    · rw [hm] at hp
      cases hp
    · rw [hring] at hp
      cases hp

theorem OnePath.of_ring (hring : bufRing = true) (hplain : s'.reader.plain = false) :
    OnePath bufRing s' := by
  refine ⟨fun _ => hplain, fun h => ?_⟩
  rw [hring] at h
  cases h

theorem OnePath.multishot_ring (h : OnePath bufRing s) (hm : s.reader.multishot = true) :
    bufRing = true := by
  cases hring : bufRing with
  | true => rfl
  | false =>
      rw [(h.plain hring).1] at hm
      cases hm

theorem OnePath.kernel_ring (h : OnePath bufRing s) (hkernel : s.kernel = true) :
    bufRing = true := by
  cases hring : bufRing with
  | true => rfl
  | false =>
      rw [(h.plain hring).2.2.2] at hkernel
      cases hkernel

theorem OnePath.cqe_ring (h : OnePath bufRing s) {c : Cqe} {rest : List Cqe}
    (next : s.cqes = c :: rest) : bufRing = true := by
  cases hring : bufRing with
  | true => rfl
  | false =>
      rw [(h.plain hring).2.2.1] at next
      cases next

theorem release_reader (s : State α) : s.release.reader = s.reader := by
  unfold State.release
  dsimp only
  split <;> rfl

theorem OnePath.release (h : OnePath bufRing s) : OnePath bufRing s.release := by
  refine ⟨fun hring => ?_, fun hring => ?_⟩
  · rw [release_reader]
    exact h.ring hring
  · rw [release_reader]
    obtain ⟨hm, hsegs, hcqes, hkernel⟩ := h.plain hring
    unfold State.release
    dsimp only
    split
    · refine ⟨hm, ?_, hcqes, hkernel⟩
      show ((SegQueue.popFront)^[s.op.segs.toList.length] s.op.segs).toList = []
      rw [popFront_iterate, List.drop_length]
    · exact ⟨hm, hsegs, hcqes, hkernel⟩

theorem wake_plain (s : State α) : s.wake.reader.plain = s.reader.plain := by
  unfold State.wake
  split
  · dsimp only
    cases s.reader <;> rfl
  · rfl

theorem handleCqe_plain (s : State α) (c : Cqe) : (s.handleCqe c).reader.plain = s.reader.plain := by
  unfold State.handleCqe
  dsimp only
  split
  · split
    · rw [release_reader]
      exact wake_plain _
    · exact wake_plain _
  · exact wake_plain _

theorem step_onePath (h : OnePath bufRing s) (hstep : Step bufRing s e s') : OnePath bufRing s' := by
  cases hstep with
  | arrive | lend | giveBack | remove => exact h.pass rfl rfl rfl .inl .inl
  | call dynamic n handle positive idle => exact h.pass rfl rfl rfl nofun nofun
  | recvFirst n k ring | recvFirstEnd n ring | recvFirstAgain n ring | enter dynamic n ring =>
      exact .of_ring ring rfl
  | loopData n reader | loopTerminal n reader | loopAwait n reader | awaitReady n reader
  | awaitArmed n reader | resume n reader =>
      exact .of_ring (h.multishot_ring (by rw [reader]; rfl)) rfl
  | awaitArm n sqe reader unready unarmed =>
      exact .of_ring (h.multishot_ring (by rw [reader]; rfl)) rfl
  | fill b k rest more armed buffer some there =>
      have hring := h.kernel_ring armed
      exact .of_ring hring (h.ring hring)
  | terminate res more armed =>
      have hring := h.kernel_ring armed
      exact .of_ring hring (h.ring hring)
  | handleCqe c rest next =>
      have hring := h.cqe_ring next
      refine .of_ring hring ?_
      rw [handleCqe_plain]
      exact h.ring hring
  | plainFirst dynamic n k ring | plainFirstEnd dynamic n ring => exact h.pass rfl rfl rfl nofun nofun
  | plainSubmit dynamic sqe n ring => exact h.pass rfl rfl rfl (fun _ => .inr ring) nofun
  | plainTake n k reader =>
      refine h.pass rfl rfl rfl (fun _ => .inl ?_) nofun
      rw [reader]
      rfl
  | plainReturn bytes reader => exact h.pass rfl rfl rfl nofun nofun
  | copy => exact h.pass rfl rfl rfl .inl .inl
  | drop | timeout | shutdown =>
      refine OnePath.release ?_
      exact h.pass rfl rfl rfl .inl .inl
  | setTimeout handle unset =>
      unfold State.addRefForMsRecv
      split
      · exact h.pass rfl rfl rfl .inl .inl
      · split <;> exact h.pass rfl rfl rfl .inl .inl

/-! ### The stream -/

def Reader.inHand : Reader α → List α
  | .received bytes => bytes
  | _ => []

/-- The stream is what is delivered, what has been taken and not delivered, and the rest. -/
structure Flow (s : State α) : Prop where
  books : Books s
  whole : ∃ rest, s.stream = s.delivered ++ rest ∧
    (s.destroyed = false → rest = s.undelivered ++ s.reader.inHand ++ s.source)

theorem flow_new {bufs : List Nat} (h : bufs.Nodup) (fdOpen : Bool) :
    Flow (State.new bufs fdOpen : State α) := ⟨books_new h fdOpen, [], rfl, fun _ => rfl⟩

theorem SameBytes.undelivered (h : SameBytes s s') : s'.undelivered = s.undelivered := by
  unfold State.undelivered
  rw [h.base, h.segs, h.cqes]

theorem Flow.pass (h : Flow s) (hsame : SameBytes s s') (hstream : s'.stream = s.stream)
    (hdelivered : s'.delivered = s.delivered) (hsource : s'.source = s.source)
    (hinHand : s'.reader.inHand = s.reader.inHand)
    (hdestroyed : s'.destroyed = false → s.destroyed = false) : Flow s' := by
  obtain ⟨rest, hwhole, hrest⟩ := h.whole
  refine ⟨h.books.pass hsame, rest, ?_, fun halive => ?_⟩
  · rw [hstream, hdelivered]
    exact hwhole
  · rw [hsame.undelivered, hinHand, hsource]
    exact hrest (hdestroyed halive)

theorem Flow.move (h : Flow s) (hsame : SameBytes s s') (hstream : s'.stream = s.stream)
    (hdelivered : s'.delivered = s.delivered) (hsource : s'.source = s.source)
    (hdestroyed : s'.destroyed = s.destroyed) (hold : s.reader.inHand = [])
    (hnew : s'.reader.inHand = []) : Flow s' :=
  h.pass hsame hstream hdelivered hsource (hnew.trans hold.symm) fun halive => hdestroyed ▸ halive

theorem Flow.release (h : Flow s) : Flow s.release := by
  unfold State.release
  dsimp only
  split
  · obtain ⟨rest, hwhole, -⟩ := h.whole
    refine ⟨?_, rest, hwhole, nofun⟩
    refine Books.destroy ?_
    exact h.books.pass ⟨rfl, rfl, rfl, rfl, rfl⟩
  · exact h.pass ⟨rfl, rfl, rfl, rfl, rfl⟩ rfl rfl rfl rfl id

def State.Whole (s : State α) : Prop :=
  s.stream = s.delivered ++ (s.undelivered ++ s.reader.inHand ++ s.source)

theorem Flow.alive (h : Flow s) (alive : s.destroyed = false) : s.Whole := by
  obtain ⟨rest, hwhole, hrest⟩ := h.whole
  rw [hrest alive] at hwhole
  exact hwhole

theorem flow_of_whole (hbooks : Books s) (hwhole : s.Whole) : Flow s :=
  ⟨hbooks, _, hwhole, fun _ => rfl⟩

theorem Flow.arrive (h : Flow s) (alive : s.destroyed = false) (bytes : List α) :
    Flow { s with source := s.source ++ bytes, stream := s.stream ++ bytes } := by
  refine flow_of_whole (h.books.pass ⟨rfl, rfl, rfl, rfl, rfl⟩) ?_
  show s.stream ++ bytes = s.delivered ++ (s.undelivered ++ s.reader.inHand ++ (s.source ++ bytes))
  rw [show s.stream = _ from h.alive alive]
  simp only [List.append_assoc]

/-- A direct receive delivers what comes next when nothing else waits. -/
theorem Flow.recvDirect (h : Flow s) (alive : s.destroyed = false) (hempty : s.undelivered = [])
    (hinHand : s.reader.inHand = []) (n : Nat) : Flow (s.recvDirect n) := by
  refine flow_of_whole (h.books.pass ⟨rfl, rfl, rfl, rfl, rfl⟩) ?_
  show s.stream = s.delivered ++ s.source.take n ++ (s.undelivered ++ [] ++ s.source.drop n)
  rw [show s.stream = _ from h.alive alive, hempty, hinHand, List.append_assoc s.delivered]
  exact congrArg (s.delivered ++ ·) (List.take_append_drop n s.source).symm

theorem Flow.consume (h : Flow s) (alive : s.destroyed = false) (hinHand : s.reader.inHand = [])
    (n : Nat) : Flow (s.consume n) := by
  have hlive : ∀ x ∈ s.op.segs.toList, x.Live s.base := fun x hx =>
    h.books.live x (List.mem_append_left _ hx)
  obtain ⟨hout, hrest, hbids, hlive'⟩ := consumeMsRecv_spec s.base n s.op.segs hlive
  refine flow_of_whole (h.books.recycle rfl hbids hlive' rfl rfl rfl) ?_
  show s.stream = s.delivered ++ (consumeMsRecv s.base n s.op.segs).1 ++
    (segBytes s.base ((consumeMsRecv s.base n s.op.segs).2.1.toList ++ cqeSegs s.cqes) ++ [] ++
      s.source)
  rw [show s.stream = _ from h.alive alive, hinHand, segBytes_append, hrest, hout]
  unfold State.undelivered
  rw [segBytes_append]
  have hqueue := List.take_append_drop n (segBytes s.base s.op.segs.toList)
  simp only [List.append_assoc, List.append_nil]
  congr 1
  rw [← List.append_assoc (List.take n _), hqueue]

theorem Flow.fill (h : Flow s) (alive : s.destroyed = false) (hinHand : s.reader.inHand = [])
    {b n : Nat} {rest : List Nat} (buffer : s.bufs = b :: rest) (some : 0 < n)
    (there : n ≤ s.source.length) (more : Bool) : Flow (s.fill b n more) := by
  have hb : b ∈ s.bufs := buffer ▸ List.mem_cons_self
  have htaken : segBytes (Function.update s.base b (s.source.take n)) [⟨n, 0, b⟩] =
      s.source.take n := by
    rw [segBytes_cons]
    unfold Seg.bytes
    rw [Function.update_self, List.take_take, Nat.min_self]
    exact List.append_nil _
  have hundelivered : (s.fill b n more).undelivered = s.undelivered ++ s.source.take n := by
    show segBytes (Function.update s.base b (s.source.take n))
      (s.op.segs.toList ++ cqeSegs (s.cqes ++ [.data ⟨n, 0, b⟩ more])) = _
    rw [cqeSegs_append, ← List.append_assoc, segBytes_append,
      segBytes_congr (h.books.filled hb (s.source.take n))]
    exact congrArg (s.undelivered ++ ·) htaken
  refine flow_of_whole (h.books.fill buffer some there more) ?_
  show s.stream = s.delivered ++ ((s.fill b n more).undelivered ++ s.reader.inHand ++
    s.source.drop n)
  rw [show s.stream = _ from h.alive alive, hundelivered, hinHand]
  simp only [List.append_assoc, List.append_nil]
  rw [List.take_append_drop]

theorem Flow.lend (h : Flow s) (alive : s.destroyed = false) {b : Nat} {rest : List Nat}
    (buffer : s.bufs = b :: rest) (bytes : List α) :
    Flow { s with base := Function.update s.base b bytes, bufs := rest, lent := b :: s.lent } := by
  refine flow_of_whole (h.books.lend buffer bytes) ?_
  show s.stream = s.delivered ++ (segBytes (Function.update s.base b bytes)
    (s.op.segs.toList ++ cqeSegs s.cqes) ++ s.reader.inHand ++ s.source)
  rw [segBytes_congr (h.books.filled (buffer ▸ List.mem_cons_self) bytes)]
  exact h.alive alive

theorem Flow.addRefForMsRecv (h : Flow s) : Flow s.addRefForMsRecv := by
  unfold State.addRefForMsRecv
  split
  · exact h
  · split
    · exact h
    · exact h.pass ⟨rfl, rfl, rfl, rfl, rfl⟩ rfl rfl rfl rfl id

def State.armedBy (s : State α) (sqe : Bool) : State α :=
  if (s.submitRecvMultishot sqe).op.armed then (s.submitRecvMultishot sqe).addRefForMsRecv
  else s.submitRecvMultishot sqe

theorem Flow.armed (h : Flow s) (sqe : Bool) : Flow (s.armedBy sqe) := by
  have hsubmit : Flow (s.submitRecvMultishot sqe) := by
    unfold State.submitRecvMultishot
    split
    · exact h.pass ⟨rfl, rfl, rfl, rfl, rfl⟩ rfl rfl rfl rfl id
    · exact h
  unfold State.armedBy
  split
  · exact hsubmit.addRefForMsRecv
  · exact hsubmit

theorem addRefForMsRecv_reader (s : State α) : s.addRefForMsRecv.reader = s.reader := by
  unfold State.addRefForMsRecv
  split
  · rfl
  · split <;> rfl

theorem armed_reader (s : State α) (sqe : Bool) : (s.armedBy sqe).reader = s.reader := by
  have hsubmit : (s.submitRecvMultishot sqe).reader = s.reader := by
    unfold State.submitRecvMultishot
    split <;> rfl
  unfold State.armedBy
  split
  · rw [addRefForMsRecv_reader, hsubmit]
  · exact hsubmit

theorem wake_sameBytes (s : State α) : SameBytes s s.wake := by
  unfold State.wake
  split <;> exact ⟨rfl, rfl, rfl, rfl, rfl⟩

theorem wake_inHand (s : State α) : s.wake.reader.inHand = s.reader.inHand := by
  unfold State.wake
  split
  · dsimp only
    cases s.reader <;> rfl
  · rfl

theorem Flow.wake (h : Flow s) : Flow s.wake := by
  have hrest : s.wake.stream = s.stream ∧ s.wake.delivered = s.delivered ∧
      s.wake.source = s.source ∧ s.wake.destroyed = s.destroyed := by
    unfold State.wake
    split <;> exact ⟨rfl, rfl, rfl, rfl⟩
  obtain ⟨hstream, hdelivered, hsource, hdestroyed⟩ := hrest
  exact h.pass (wake_sameBytes s) hstream hdelivered hsource (wake_inHand s)
    fun halive => hdestroyed ▸ halive

theorem pushCqe_toList (op : MultishotRecvOp) (c : Cqe) :
    (pushCqe op c).segs.toList = op.segs.toList ++ c.seg := by
  cases c with
  | data x more => exact SegQueue.push_toList ..
  | terminal res more => exact (List.append_nil _).symm

theorem Flow.handleCqe (h : Flow s) (alive : s.destroyed = false) {c : Cqe} {rest : List Cqe}
    (next : s.cqes = c :: rest) : Flow ({ s with cqes := rest }.handleCqe c) := by
  have hpush : ∀ armed, Flow { s with cqes := rest, op := { pushCqe s.op c with armed := armed } } := by
    intro armed
    refine flow_of_whole (h.books.handle next rfl (pushCqe_toList s.op c) rfl rfl rfl) ?_
    show s.stream = s.delivered ++ (segBytes s.base ((pushCqe s.op c).segs.toList ++ cqeSegs rest) ++
      s.reader.inHand ++ s.source)
    rw [pushCqe_toList, List.append_assoc s.op.segs.toList, ← cqeSegs_cons, ← next]
    exact h.alive alive
  unfold State.handleCqe
  dsimp only
  split
  · split
    · refine Flow.release ?_
      exact (hpush _).wake.pass ⟨rfl, rfl, rfl, rfl, rfl⟩ rfl rfl rfl rfl id
    · exact (hpush _).wake.pass ⟨rfl, rfl, rfl, rfl, rfl⟩ rfl rfl rfl rfl id
  · exact (hpush _).wake

/-! ### Every step -/

theorem step_flow (h : Flow s) (hpath : OnePath bufRing s) (alive : s.destroyed = false)
    (hok : Ordered s e) (hstep : Step bufRing s e s') : Flow s' := by
  have hring : bufRing = true → s.reader.inHand = [] := by
    intro hring
    have hplain := hpath.ring hring
    cases hreader : s.reader with
    | received bytes =>
        rw [hreader] at hplain
        cases hplain
    | _ => rfl
  cases hstep with
  | arrive bytes => exact h.arrive alive bytes
  | call dynamic n handle positive idle =>
      refine h.move ⟨rfl, rfl, rfl, rfl, rfl⟩ rfl rfl rfl rfl ?_ rfl
      cases hreader : s.reader with
      | received bytes =>
          rw [hreader] at idle
          cases idle
      | _ => rfl
  | recvFirst n k ring reader first some fits there =>
      exact h.recvDirect alive hok (hring ring) k
  | plainFirst dynamic n k ring reader first fits there =>
      exact h.recvDirect alive hok (by rw [reader]; rfl) k
  | recvFirstEnd n ring reader | recvFirstAgain n ring reader | enter dynamic n ring reader
  | plainFirstEnd dynamic n ring reader | plainSubmit dynamic sqe n ring reader =>
      exact h.move ⟨rfl, rfl, rfl, rfl, rfl⟩ rfl rfl rfl rfl (by rw [reader]; rfl) rfl
  | loopTerminal n reader | loopAwait n reader | awaitReady n reader | awaitArmed n reader
  | resume n reader =>
      exact h.move ⟨rfl, rfl, rfl, rfl, rfl⟩ rfl rfl rfl rfl (by rw [reader]; rfl) rfl
  | loopData n reader data => exact h.consume alive (by rw [reader]; rfl) n
  | awaitArm n sqe reader unready unarmed =>
      refine (h.armed sqe).move ⟨rfl, rfl, rfl, rfl, rfl⟩ rfl rfl rfl rfl ?_ rfl
      rw [armed_reader, reader]
      rfl
  | fill b k rest more armed buffer some there =>
      exact h.fill alive (hring (hpath.kernel_ring armed)) buffer some there more
  | terminate res more armed =>
      refine h.pass ⟨rfl, rfl, ?_, rfl, rfl⟩ rfl rfl rfl rfl id
      rw [cqeSegs_append]
      exact List.append_nil _
  | handleCqe c rest next => exact h.handleCqe alive next
  | lend b rest bytes buffer => exact h.lend alive buffer bytes
  | giveBack b lent =>
      refine flow_of_whole (h.books.giveBack lent) ?_
      exact h.alive alive
  | plainTake n k reader submitted fits there =>
      refine flow_of_whole (h.books.pass ⟨rfl, rfl, rfl, rfl, rfl⟩) ?_
      show s.stream = s.delivered ++ (s.undelivered ++ s.source.take k ++ s.source.drop k)
      rw [List.append_assoc, List.take_append_drop, show s.stream = _ from h.alive alive, reader]
      exact congrArg (fun l => s.delivered ++ (l ++ s.source)) (List.append_nil _)
  | plainReturn bytes reader =>
      have hplain : bufRing = false := by
        cases hb : bufRing with
        | false => rfl
        | true =>
            have hcontra := hpath.ring hb
            rw [reader] at hcontra
            cases hcontra
      obtain ⟨-, hsegs, hcqes, -⟩ := hpath.plain hplain
      have hempty : s.undelivered = [] := by
        unfold State.undelivered
        rw [hsegs, hcqes]
        rfl
      refine flow_of_whole (h.books.pass ⟨rfl, rfl, rfl, rfl, rfl⟩) ?_
      show s.stream = s.delivered ++ bytes ++ (s.undelivered ++ [] ++ s.source)
      rw [show s.stream = _ from h.alive alive, hempty, reader]
      exact (List.append_assoc ..).symm
  | copy | remove => exact h.pass ⟨rfl, rfl, rfl, rfl, rfl⟩ rfl rfl rfl rfl id
  | drop handle idle | timeout set | shutdown handle set =>
      refine Flow.release ?_
      exact h.pass ⟨rfl, rfl, rfl, rfl, rfl⟩ rfl rfl rfl rfl id
  | setTimeout handle unset =>
      exact h.addRefForMsRecv.pass ⟨rfl, rfl, rfl, rfl, rfl⟩ rfl rfl rfl rfl id

theorem onePath_of_runs {ok : State α → Event → Prop} (h : Runs bufRing ok s) :
    OnePath bufRing s :=
  h.holds (fun ⟨bufs, fdOpen, _, hs⟩ => hs ▸ onePath_new bufs fdOpen) fun _ ih hmove _ =>
    step_onePath ih hmove.2

theorem flow_of_runs (h : Runs bufRing Ordered s) : Flow s :=
  h.holds (fun ⟨_, fdOpen, distinct, hs⟩ => hs ▸ flow_new distinct fdOpen) fun hs ih hmove meets =>
    step_flow ih (onePath_of_runs hs) hmove.1 meets hmove.2

/-- When no direct receive overtakes the multishot one, the bytes that the calls have delivered
are a prefix of the stream. -/
theorem delivered_of_orderedRuns {α : Type} (bufRing : Bool) (s : State α)
    (hruns : Runs bufRing Ordered s) : s.delivered <+: s.stream := by
  obtain ⟨rest, hwhole, -⟩ := (flow_of_runs hruns).whole
  exact ⟨rest, hwhole.symm⟩

/-- The first call reads directly, the second one what the multishot receive has taken. -/
theorem mixed_delivered : ∃ s : State Nat, s.delivered = [1, 2, 3] ∧ s.stream = [1, 2, 3, 4] ∧
    s.delivered <+: s.stream := by
  have h₁ : Runs true Ordered (State.new [0, 1] true : State Nat) :=
    .start ⟨[0, 1], true, by decide, rfl⟩
  have h₂ := ((h₁.step ⟨rfl, .arrive [1, 2]⟩).step
    ⟨rfl, .call true 5 (by decide) (by decide) rfl⟩).step
    ⟨rfl, .recvFirst 5 2 rfl rfl rfl (by decide) (by decide) (by decide)⟩ rfl
  have h₃ := (((h₂.step ⟨rfl, .call false 1 (by decide) (by decide) rfl⟩).step
    ⟨rfl, .enter false 1 rfl rfl nofun⟩).step ⟨rfl, .loopAwait 1 rfl rfl nofun⟩).step
    ⟨rfl, .awaitArm 1 true rfl rfl rfl⟩
  have h₄ := ((h₃.step ⟨rfl, .arrive [3, 4]⟩).step
    ⟨rfl, .fill 0 2 [1] true rfl rfl (by decide) (by decide)⟩).step ⟨rfl, .handleCqe _ [] rfl⟩
  have h₅ := (h₄.step ⟨rfl, .resume 1 rfl⟩).step ⟨rfl, .loopData 1 rfl rfl⟩
  exact ⟨_, rfl, rfl, delivered_of_orderedRuns true _ h₅⟩

/-- The first call leaves a byte of its segment, and the second one reads directly. -/
theorem overtaken_not_delivered : ∃ s : State Nat, Runs true (fun _ _ => True) s ∧
    ¬ s.delivered <+: s.stream := by
  have h₁ : Runs true (fun _ _ => True) (State.new [0, 1] true : State Nat) :=
    .start ⟨[0, 1], true, by decide, rfl⟩
  have h₂ := (((h₁.step ⟨rfl, .call false 1 (by decide) (by decide) rfl⟩).step
    ⟨rfl, .enter false 1 rfl rfl nofun⟩).step ⟨rfl, .loopAwait 1 rfl rfl nofun⟩).step
    ⟨rfl, .awaitArm 1 true rfl rfl rfl⟩
  have h₃ := ((h₂.step ⟨rfl, .arrive [1, 2]⟩).step
    ⟨rfl, .fill 0 2 [1] true rfl rfl (by decide) (by decide)⟩).step ⟨rfl, .handleCqe _ [] rfl⟩
  have h₄ := ((h₃.step ⟨rfl, .resume 1 rfl⟩).step ⟨rfl, .loopData 1 rfl rfl⟩).step
    ⟨rfl, .arrive [3, 4]⟩
  have h₅ := (h₄.step ⟨rfl, .call true 5 (by decide) (by decide) rfl⟩).step
    ⟨rfl, .recvFirst 5 2 rfl rfl rfl (by decide) (by decide) (by decide)⟩
  refine ⟨_, h₅, ?_⟩
  show ¬ [1, 3, 4] <+: [1, 2, 3, 4]
  decide

end Uvent.Net.Uring
