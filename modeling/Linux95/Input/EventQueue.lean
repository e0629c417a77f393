import Linux95.Base.Ring

/-! The keyboard queue of `arch/keyboard_helpers.hpp`: `push` on the interrupt side and `pop` and
`empty` in the main loop, each a sequence of single accesses to the shared indices and one slot. -/

namespace Linux95.Input
open Base

inductive KeyCode where
  | unknown
  | character
  | enter
  | backspace
  | arrowLeft
  | arrowRight
  | arrowUp
  | arrowDown
  | escape
  | delete
  deriving DecidableEq, Repr

structure KeyEvent where
  key : KeyCode
  character : UInt8
  ctrl : Bool
  shift : Bool
  pressed : Bool
  deriving DecidableEq, Repr

def KeyEvent.zero : KeyEvent := ⟨.unknown, 0, false, false, false⟩

namespace EventQueue

def capacity : Nat := 128

/-- Where a `push` of an event is; `head` is the index it loaded. -/
inductive Push where
  | idle
  | loadedHead (event : KeyEvent) (head : Nat)
  | checked (event : KeyEvent) (head : Nat)
  | stored (event : KeyEvent) (head : Nat)
  deriving DecidableEq

inductive Pop where
  | idle
  | loadedTail (tail : Nat)
  | nonempty (tail : Nat)
  | copied (tail : Nat) (event : KeyEvent)
  | emptyHead (head : Nat)
  deriving DecidableEq

structure Queue where
  events : Nat → KeyEvent
  head : Nat
  tail : Nat
  push : Push
  pop : Pop

def Queue.initial : Queue := ⟨fun _ => .zero, 0, 0, .idle, .idle⟩

inductive Reply where
  | pushed (accepted : Bool)
  | popped (event : KeyEvent)
  | poppedNothing
  | empty (answer : Bool)
  deriving DecidableEq

inductive Access where
  | startPush (event : KeyEvent)
  | push
  | startPop
  | startEmpty
  | pop
  deriving DecidableEq

/-- One access to the memory the two sides share, with the reply when it is the last of its call;
`none` when the side is not in a call, or already in one. -/
def step : Access → Queue → Option (Option Reply × Queue)
  | .startPush event, q =>
    match q.push with
    | .idle => some (none, { q with push := .loadedHead event q.head })
    | _ => none
  | .push, q =>
    match q.push with
    | .idle => none
    | .loadedHead event head =>
      if (head + (2 ^ 32 - q.tail)) % 2 ^ 32 = capacity then
        some (some (.pushed false), { q with push := .idle })
      else some (none, { q with push := .checked event head })
    | .checked event head =>
      some (none, { q with events := Function.update q.events (head % capacity) event,
                           push := .stored event head })
    | .stored _ head =>
      some (some (.pushed true), { q with head := (head + 1) % 2 ^ 32, push := .idle })
  | .startPop, q =>
    match q.pop with
    | .idle => some (none, { q with pop := .loadedTail q.tail })
    | _ => none
  | .startEmpty, q =>
    match q.pop with
    | .idle => some (none, { q with pop := .emptyHead q.head })
    | _ => none
  | .pop, q =>
    match q.pop with
    | .idle => none
    | .loadedTail tail =>
      if q.head = tail then some (some .poppedNothing, { q with pop := .idle })
      else some (none, { q with pop := .nonempty tail })
    | .nonempty tail => some (none, { q with pop := .copied tail (q.events (tail % capacity)) })
    | .copied tail event =>
      some (some (.popped event), { q with tail := (tail + 1) % 2 ^ 32, pop := .idle })
    | .emptyHead head => some (some (.empty (head = q.tail)), { q with pop := .idle })

/-- A run so far: `accepted` are the events whose `push` returned true, `taken` those a `pop`
returned, and `seen` counts the accepted events when the main loop last loaded `head_` for
`empty`. -/
structure Trace where
  queue : Queue
  accepted : List KeyEvent
  taken : List KeyEvent
  seen : Nat

def Trace.start : Trace := ⟨.initial, [], [], 0⟩

def Push.event : Push → KeyEvent
  | .idle => .zero
  | .loadedHead event _ => event
  | .checked event _ => event
  | .stored event _ => event

def Trace.record (t : Trace) (access : Access) (reply : Option Reply) (queue : Queue) : Trace where
  queue := queue
  accepted := if reply = some (.pushed true) then t.accepted ++ [t.queue.push.event] else t.accepted
  taken := match reply with
    | some (.popped event) => t.taken ++ [event]
    | _ => t.taken
  seen := if access = .startEmpty then t.accepted.length else t.seen

def Trace.step (t : Trace) (access : Access) : Option Trace :=
  (EventQueue.step access t.queue).map fun r => t.record access r.1 r.2

def Trace.run : List Access → Trace → Option Trace
  | [], t => some t
  | access :: rest, t => (t.step access).bind (Trace.run rest)

structure QueueInv (t : Trace) : Prop where
  head : t.queue.head = t.accepted.length % 2 ^ 32
  tail : t.queue.tail = t.taken.length % 2 ^ 32
  ordered : t.taken <+: t.accepted
  bounded : t.accepted.length ≤ t.taken.length + capacity
  retains : Retains t.queue.events capacity t.accepted t.taken.length
  loadedHead : ∀ event head, t.queue.push = .loadedHead event head → head = t.queue.head
  checked : ∀ event head, t.queue.push = .checked event head →
    head = t.queue.head ∧ t.accepted.length < t.taken.length + capacity
  stored : ∀ event head, t.queue.push = .stored event head →
    head = t.queue.head ∧ t.accepted.length < t.taken.length + capacity ∧
      t.queue.events (t.accepted.length % capacity) = event
  loadedTail : ∀ tail, t.queue.pop = .loadedTail tail → tail = t.queue.tail
  nonempty : ∀ tail, t.queue.pop = .nonempty tail →
    tail = t.queue.tail ∧ t.taken.length < t.accepted.length
  copied : ∀ tail event, t.queue.pop = .copied tail event →
    tail = t.queue.tail ∧ t.taken ++ [event] <+: t.accepted
  emptyHead : ∀ head, t.queue.pop = .emptyHead head →
    head = t.seen % 2 ^ 32 ∧ t.taken.length ≤ t.seen ∧ t.seen ≤ t.accepted.length

section Step
variable {t t' : Trace}

theorem QueueInv.startPush (h : QueueInv t) {event : KeyEvent}
    (hstep : t.step (.startPush event) = some t') : QueueInv t' := by
  cases hp : t.queue.push with
  | idle =>
    simp only [Trace.step, EventQueue.step, hp, Option.map_some, Option.some.injEq] at hstep
    subst hstep
    exact { h with
      loadedHead := fun _ _ heq => (Push.loadedHead.inj heq).2.symm
      checked := fun _ _ heq => nomatch heq
      stored := fun _ _ heq => nomatch heq }
  | _ =>
    simp only [Trace.step, EventQueue.step, hp] at hstep
    exact nomatch hstep

theorem QueueInv.difference (h : QueueInv t) :
    (t.queue.head + (2 ^ 32 - t.queue.tail)) % 2 ^ 32 = t.accepted.length - t.taken.length := by
  -- while the two indices are at most a round apart, their 32-bit difference is exact
  have hb := h.bounded
  have hle := h.ordered.length_le
  rw [h.head, h.tail]
  unfold capacity at hb
  omega

theorem QueueInv.push (h : QueueInv t) (hstep : t.step .push = some t') : QueueInv t' := by
  have hle := h.ordered.length_le
  cases hp : t.queue.push with
  | idle =>
    simp only [Trace.step, EventQueue.step, hp] at hstep
    exact nomatch hstep
  | loadedHead event head =>
    have hhead := h.loadedHead event head hp
    have hdiff := h.difference
    simp only [Trace.step, EventQueue.step, hp] at hstep
    split_ifs at hstep with hfull
    · simp only [Option.map_some, Option.some.injEq] at hstep
      subst hstep
      exact { h with
        loadedHead := fun _ _ heq => nomatch heq
        checked := fun _ _ heq => nomatch heq
        stored := fun _ _ heq => nomatch heq }
    · simp only [Option.map_some, Option.some.injEq] at hstep
      subst hstep
      rw [hhead, hdiff] at hfull
      have hb := h.bounded
      -- the test of the source: the wrapped indices differ by less than the capacity
      have hroom : t.accepted.length < t.taken.length + capacity := by omega
      exact { h with
        loadedHead := fun _ _ heq => nomatch heq
        checked := fun _ _ heq => ⟨(Push.checked.inj heq).2 ▸ hhead, hroom⟩
        stored := fun _ _ heq => nomatch heq }
  | checked event head =>
    obtain ⟨hhead, hroom⟩ := h.checked event head hp
    simp only [Trace.step, EventQueue.step, hp, Option.map_some, Option.some.injEq] at hstep
    subst hstep
    -- the capacity divides 2 ^ 32, so the wrapped index names the same slot
    have hslot : head % capacity = t.accepted.length % capacity := by
      rw [hhead, h.head]
      unfold capacity
      omega
    exact { h with
      retains := by
        change Retains (Function.update t.queue.events (head % capacity) event) _ _ _
        rw [hslot]
        exact h.retains.write hroom event
      loadedHead := fun _ _ heq => nomatch heq
      checked := fun _ _ heq => nomatch heq
      stored := by
        intro event' head' heq
        obtain ⟨rfl, rfl⟩ := Push.stored.inj heq
        refine ⟨hhead, hroom, ?_⟩
        change Function.update t.queue.events (head % capacity) event (t.accepted.length % capacity) = _
        rw [hslot, Function.update_self] }
  | stored event head =>
    obtain ⟨hhead, hroom, hslot⟩ := h.stored event head hp
    simp only [Trace.step, EventQueue.step, hp, Option.map_some, Option.some.injEq] at hstep
    subst hstep
    have haccepted : (t.record .push (some (.pushed true))
        { t.queue with head := (head + 1) % 2 ^ 32, push := .idle }).accepted =
          t.accepted ++ [event] := by
      simp [Trace.record, hp, Push.event]
    have hlen : (t.accepted ++ [event]).length = t.accepted.length + 1 := by simp
    constructor
    · rw [haccepted, hlen]
      change (head + 1) % 2 ^ 32 = _
      rw [hhead, h.head]
      omega
    · exact h.tail
    · rw [haccepted]
      exact h.ordered.trans (List.prefix_append _ _)
    · rw [haccepted, hlen]
      exact hroom
    · rw [haccepted]
      exact h.retains.append hslot
    · exact fun _ _ heq => nomatch heq
    · exact fun _ _ heq => nomatch heq
    · exact fun _ _ heq => nomatch heq
    · exact h.loadedTail
    · intro tail heq
      rw [haccepted, hlen]
      exact ⟨(h.nonempty tail heq).1, Nat.lt_succ_of_lt (h.nonempty tail heq).2⟩
    · intro tail event' heq
      rw [haccepted]
      exact ⟨(h.copied tail event' heq).1, (h.copied tail event' heq).2.trans (List.prefix_append _ _)⟩
    · intro head' heq
      rw [haccepted, hlen]
      obtain ⟨h1, h2, h3⟩ := h.emptyHead head' heq
      exact ⟨h1, h2, Nat.le_succ_of_le h3⟩

theorem QueueInv.startPop (h : QueueInv t) (hstep : t.step .startPop = some t') : QueueInv t' := by
  cases hp : t.queue.pop with
  | idle =>
    simp only [Trace.step, EventQueue.step, hp, Option.map_some, Option.some.injEq] at hstep
    subst hstep
    exact { h with
      loadedTail := fun _ heq => (Pop.loadedTail.inj heq).symm
      nonempty := fun _ heq => nomatch heq
      copied := fun _ _ heq => nomatch heq
      emptyHead := fun _ heq => nomatch heq }
  | _ =>
    simp only [Trace.step, EventQueue.step, hp] at hstep
    exact nomatch hstep

theorem QueueInv.startEmpty (h : QueueInv t) (hstep : t.step .startEmpty = some t') :
    QueueInv t' := by
  cases hp : t.queue.pop with
  | idle =>
    simp only [Trace.step, EventQueue.step, hp, Option.map_some, Option.some.injEq] at hstep
    subst hstep
    exact { h with
      loadedTail := fun _ heq => nomatch heq
      nonempty := fun _ heq => nomatch heq
      copied := fun _ _ heq => nomatch heq
      emptyHead := by
        intro head heq
        rw [← Pop.emptyHead.inj heq]
        exact ⟨h.head, h.ordered.length_le, le_rfl⟩ }
  | _ =>
    simp only [Trace.step, EventQueue.step, hp] at hstep
    exact nomatch hstep

theorem QueueInv.head_eq_tail (h : QueueInv t) : t.queue.head = t.queue.tail ↔
    t.taken.length = t.accepted.length := by
  -- the indices are equal only when everything accepted has been taken
  have hb := h.bounded
  have hle := h.ordered.length_le
  rw [h.head, h.tail]
  unfold capacity at hb
  omega

theorem QueueInv.pop (h : QueueInv t) (hstep : t.step .pop = some t') : QueueInv t' := by
  have hle := h.ordered.length_le
  cases hp : t.queue.pop with
  | idle =>
    simp only [Trace.step, EventQueue.step, hp] at hstep
    exact nomatch hstep
  | loadedTail tail =>
    have htail := h.loadedTail tail hp
    simp only [Trace.step, EventQueue.step, hp] at hstep
    split_ifs at hstep with hempty
    · simp only [Option.map_some, Option.some.injEq] at hstep
      subst hstep
      exact { h with
        loadedTail := fun _ heq => nomatch heq
        nonempty := fun _ heq => nomatch heq
        copied := fun _ _ heq => nomatch heq
        emptyHead := fun _ heq => nomatch heq }
    · simp only [Option.map_some, Option.some.injEq] at hstep
      subst hstep
      rw [htail, h.head_eq_tail] at hempty
      exact { h with
        loadedTail := fun _ heq => nomatch heq
        nonempty := fun _ heq => ⟨Pop.nonempty.inj heq ▸ htail, by
          change t.taken.length < t.accepted.length
          omega⟩
        copied := fun _ _ heq => nomatch heq
        emptyHead := fun _ heq => nomatch heq }
  | nonempty tail =>
    obtain ⟨htail, hlt⟩ := h.nonempty tail hp
    simp only [Trace.step, EventQueue.step, hp, Option.map_some, Option.some.injEq] at hstep
    subst hstep
    -- the capacity divides 2 ^ 32, so the wrapped index names the same slot
    have hslot : tail % capacity = t.taken.length % capacity := by
      rw [htail, h.tail]
      unfold capacity
      omega
    exact { h with
      loadedTail := fun _ heq => nomatch heq
      nonempty := fun _ heq => nomatch heq
      copied := by
        intro tail' event heq
        obtain ⟨rfl, rfl⟩ := Pop.copied.inj heq
        rw [hslot]
        exact ⟨htail, h.retains.next h.ordered hlt⟩
      emptyHead := fun _ heq => nomatch heq }
  | copied tail event =>
    obtain ⟨htail, hpre⟩ := h.copied tail event hp
    simp only [Trace.step, EventQueue.step, hp, Option.map_some, Option.some.injEq] at hstep
    subst hstep
    have hlen : (t.taken ++ [event]).length = t.taken.length + 1 := by simp
    have hb := h.bounded
    -- the slot is given back: what a push has seen as room is still room
    refine { h with
      tail := ?_
      ordered := hpre
      bounded := ?_
      retains := ?_
      checked := ?_
      stored := ?_
      loadedTail := fun _ heq => nomatch heq
      nonempty := fun _ heq => nomatch heq
      copied := fun _ _ heq => nomatch heq
      emptyHead := fun _ heq => nomatch heq }
    · change (tail + 1) % 2 ^ 32 = (t.taken ++ [event]).length % 2 ^ 32
      rw [htail, h.tail, hlen]
      omega
    · change t.accepted.length ≤ (t.taken ++ [event]).length + capacity
      omega
    · exact h.retains.drop (by simp [Trace.record])
    · intro event' head heq
      obtain ⟨h1, h2⟩ := h.checked event' head heq
      refine ⟨h1, ?_⟩
      change t.accepted.length < (t.taken ++ [event]).length + capacity
      omega
    · intro event' head heq
      obtain ⟨h1, h2, h3⟩ := h.stored event' head heq
      refine ⟨h1, ?_, h3⟩
      change t.accepted.length < (t.taken ++ [event]).length + capacity
      omega
  | emptyHead head =>
    simp only [Trace.step, EventQueue.step, hp, Option.map_some, Option.some.injEq] at hstep
    subst hstep
    exact { h with
      loadedTail := fun _ heq => nomatch heq
      nonempty := fun _ heq => nomatch heq
      copied := fun _ _ heq => nomatch heq
      emptyHead := fun _ heq => nomatch heq }

theorem queueInv_step (h : QueueInv t) {access : Access} (hstep : t.step access = some t') :
    QueueInv t' := by
  cases access with
  | startPush event => exact h.startPush hstep
  | push => exact h.push hstep
  | startPop => exact h.startPop hstep
  | startEmpty => exact h.startEmpty hstep
  | pop => exact h.pop hstep

theorem queueInv_run : ∀ (accesses : List Access) {t t' : Trace}, QueueInv t →
    t.run accesses = some t' → QueueInv t' := by
  intro accesses
  induction accesses with
  | nil =>
    intro t t' h hrun
    exact Option.some.inj hrun ▸ h
  | cons access rest ih =>
    intro t t' h hrun
    obtain ⟨t₁, hstep, hrest⟩ := Option.bind_eq_some_iff.1 hrun
    exact ih (queueInv_step h hstep) hrest

end Step

theorem queueInv_start : QueueInv .start where
  head := rfl
  tail := rfl
  ordered := List.nil_prefix
  bounded := Nat.zero_le _
  retains := retains_nil _ _ _
  loadedHead := fun _ _ h => nomatch h
  checked := fun _ _ h => nomatch h
  stored := fun _ _ h => nomatch h
  loadedTail := fun _ h => nomatch h
  nonempty := fun _ h => nomatch h
  copied := fun _ _ h => nomatch h
  emptyHead := fun _ h => nomatch h

/-- **Keyboard queue.** In every interleaving of the accesses of the two sides the events taken are
a prefix of the events accepted, a `push` is refused only while 128 accepted events are queued, and
`pop` and `empty` find the queue empty only when every event accepted at their load of `head_` has
been taken. -/
theorem queue_runs (accesses : List Access) (t : Trace) (hrun : Trace.start.run accesses = some t) :
    t.taken <+: t.accepted ∧
    (∀ q, step .push t.queue = some (some (.pushed false), q) →
      t.accepted.length = t.taken.length + 128) ∧
    (∀ q, step .pop t.queue = some (some .poppedNothing, q) → t.taken = t.accepted) ∧
    ∀ q, step .pop t.queue = some (some (.empty true), q) → t.taken = t.accepted.take t.seen := by
  have h := queueInv_run accesses queueInv_start hrun
  have hle := h.ordered.length_le
  refine ⟨h.ordered, fun q hq => ?_, fun q hq => ?_, fun q hq => ?_⟩
  · cases hp : t.queue.push with
    | loadedHead event head =>
      have hdiff := h.difference
      rw [← h.loadedHead event head hp] at hdiff
      simp only [step, hp] at hq
      split_ifs at hq with hfull
      · rw [hdiff] at hfull
        unfold capacity at hfull
        omega
      · simp at hq
    | _ => simp [step, hp] at hq
  · cases hp : t.queue.pop with
    | loadedTail tail =>
      simp only [step, hp] at hq
      split_ifs at hq with hempty
      · rw [h.loadedTail tail hp, h.head_eq_tail] at hempty
        exact h.ordered.eq_of_length hempty
      · simp at hq
    | _ => simp [step, hp] at hq
  · cases hp : t.queue.pop with
    | loadedTail tail =>
      simp only [step, hp] at hq
      split_ifs at hq <;> simp at hq
    | emptyHead head =>
      obtain ⟨hhead, hseen, hseen'⟩ := h.emptyHead head hp
      have hb := h.bounded
      unfold capacity at hb
      simp only [step, hp, Option.some.injEq, Prod.mk.injEq, Reply.empty.injEq,
        decide_eq_true_eq] at hq
      have heq := hq.1
      rw [hhead, h.tail] at heq
      have hlen : t.taken.length = t.seen := by omega
      rw [← hlen]
      exact List.prefix_iff_eq_take.1 h.ordered
    | _ => simp [step, hp] at hq

/-- A key is pushed while a `pop` of the main loop is between its first two loads. -/
def pushDuringPop : List Access :=
  [.startPop, .startPush ⟨.enter, 0, false, false, true⟩, .push, .push, .push, .pop, .pop, .pop]

theorem queue_runs_pushDuringPop : ∃ t, Trace.start.run pushDuringPop = some t ∧
    t.taken = [⟨.enter, 0, false, false, true⟩] ∧ t.taken <+: t.accepted :=
  ⟨_, rfl, rfl, (queue_runs pushDuringPop _ rfl).1⟩

end EventQueue

end Linux95.Input
