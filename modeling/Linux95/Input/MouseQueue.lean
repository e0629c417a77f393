import Linux95.Base.Ring

/-! The mouse queue of `arch/mouse.cpp`: `push_event` runs in the interrupt handler as one step, `read_event`
is a sequence of single loads and stores that the interrupt may fall between. The indices are volatile, so
their accesses stay in the order of the source. The slot is not: each of its fields is loaded at some time
between the first load of the tail, which tells where it is, and the return. -/

namespace Linux95.Input
open Base

structure MouseEvent where
  dx : Int
  dy : Int
  left : Bool
  right : Bool
  middle : Bool
  deriving DecidableEq, Repr

def MouseEvent.zero : MouseEvent := ⟨0, 0, false, false, false⟩

namespace MouseQueue

def eventCapacity : Nat := 64

inductive EventField where
  | dx
  | dy
  | left
  | right
  | middle
  deriving DecidableEq, Repr

/-- For every field that has been loaded, the event that was in the slot then. -/
abbrev Copy := EventField → Option MouseEvent

def Copy.event (copy : Copy) : Option MouseEvent := do
  let dx ← copy .dx
  let dy ← copy .dy
  let left ← copy .left
  let right ← copy .right
  let middle ← copy .middle
  pure ⟨dx.dx, dy.dy, left.left, right.right, middle.middle⟩

/-- The last access of an index that `read_event` has made; `--g_count` is a load and a store. -/
inductive Phase where
  | loadedTail
  | reloadedTail (tail : Nat)
  | storedTail
  | loadedCount (count : Nat)
  | storedCount
  deriving DecidableEq, Repr

inductive Reader where
  | idle
  | nonempty
  | copying (phase : Phase) (slot : Nat) (copy : Copy)

structure Queue where
  events : Nat → MouseEvent
  head : Nat
  tail : Nat
  count : Nat
  reader : Reader

def Queue.initial : Queue := ⟨fun _ => .zero, 0, 0, 0, .idle⟩

def pushEvent (event : MouseEvent) (q : Queue) : Queue :=
  if q.count = eventCapacity then q
  else { q with events := Function.update q.events q.head event,
                head := (q.head + 1) % eventCapacity, count := (q.count + 1) % 2 ^ 8 }

def hasEvent (q : Queue) : Bool := q.count ≠ 0

/-- The next access of an index by `read_event`, or its return once the slot has been loaded. -/
def readStep (q : Queue) : Option MouseEvent × Queue :=
  match q.reader with
  | .idle => if q.count = 0 then (some .zero, q) else (none, { q with reader := .nonempty })
  | .nonempty => (none, { q with reader := .copying .loadedTail q.tail fun _ => none })
  | .copying .loadedTail slot copy => (none, { q with reader := .copying (.reloadedTail q.tail) slot copy })
  | .copying (.reloadedTail tail) slot copy =>
    (none, { q with tail := (tail + 1) % eventCapacity, reader := .copying .storedTail slot copy })
  | .copying .storedTail slot copy => (none, { q with reader := .copying (.loadedCount q.count) slot copy })
  | .copying (.loadedCount count) slot copy =>
    (none, { q with count := (count + (2 ^ 8 - 1)) % 2 ^ 8, reader := .copying .storedCount slot copy })
  | .copying .storedCount _ copy =>
    match copy.event with
    | some event => (some event, { q with reader := .idle })
    | none => (none, q)

def loadField (field : EventField) (q : Queue) : Queue :=
  match q.reader with
  | .copying phase slot copy =>
    if copy field = none then
      { q with reader := .copying phase slot (Function.update copy field (some (q.events slot))) }
    else q
  | _ => q

inductive Step where
  | interrupt (event : MouseEvent)
  | read
  | load (field : EventField)
  deriving DecidableEq

/-- A run so far: `queued` are the events pushed and not discarded, `taken` those returned by a
`read_event` that found the queue nonempty. -/
structure Trace where
  queue : Queue
  queued : List MouseEvent
  taken : List MouseEvent

def Trace.start : Trace := ⟨.initial, [], []⟩

def Reader.returned : Reader → Option MouseEvent
  | .copying .storedCount _ copy => copy.event
  | _ => none

def Trace.step (t : Trace) : Step → Trace
  | .interrupt event =>
    ⟨pushEvent event t.queue,
      if t.queue.count = eventCapacity then t.queued else t.queued ++ [event], t.taken⟩
  | .read => ⟨(readStep t.queue).2, t.queued, t.taken ++ t.queue.reader.returned.toList⟩
  | .load field => ⟨loadField field t.queue, t.queued, t.taken⟩

def Trace.run : List Step → Trace → Trace
  | [], t => t
  | st :: rest, t => Trace.run rest (t.step st)

/-- An interrupt that queues an event while `read_event` is about to store the decremented counter, or
puts it into the slot that `read_event` still has to load. -/
def Trace.Disturbs (t : Trace) (st : Step) : Prop :=
  (∃ event, st = .interrupt event) ∧ t.queue.count ≠ eventCapacity ∧
    ∃ phase slot copy, t.queue.reader = .copying phase slot copy ∧
      ((∃ count, phase = .loadedCount count) ∨ t.queue.head = slot ∧ ∃ field, copy field = none)

def Trace.Undisturbed : List Step → Trace → Prop
  | [], _ => True
  | st :: rest, t => ¬t.Disturbs st ∧ Trace.Undisturbed rest (t.step st)

def Reader.tailAhead : Reader → Nat
  | .copying .storedTail _ _ | .copying (.loadedCount _) _ _ | .copying .storedCount _ _ => 1
  | _ => 0

def Reader.countBehind : Reader → Nat
  | .copying .storedCount _ _ => 1
  | _ => 0

/-- What `read_event` holds between two of its accesses: all that it has loaded, and all that it still has to
load, is the next event. -/
structure Copying (t : Trace) (phase : Phase) (slot : Nat) (copy : Copy) : Prop where
  place : slot = t.taken.length % eventCapacity
  pending : ∀ field, copy field = none → t.queued[t.taken.length]? = some (t.queue.events slot)
  loaded : ∀ field event, copy field = some event → t.queued[t.taken.length]? = some event
  tail : ∀ tail, phase = .reloadedTail tail → tail = t.taken.length % eventCapacity
  count : ∀ count, phase = .loadedCount count → count = t.queue.count

structure QueueInv (t : Trace) : Prop where
  ordered : t.taken <+: t.queued
  count : t.queue.count + t.taken.length + t.queue.reader.countBehind = t.queued.length
  bounded : t.queue.count ≤ eventCapacity
  head : t.queue.head = t.queued.length % eventCapacity
  tail : t.queue.tail = (t.taken.length + t.queue.reader.tailAhead) % eventCapacity
  retains : Retains t.queue.events eventCapacity t.queued (t.taken.length + t.queue.reader.countBehind)
  nonempty : t.queue.reader ≠ .idle → t.taken.length < t.queued.length
  copying : ∀ phase slot copy, t.queue.reader = .copying phase slot copy → Copying t phase slot copy

section Step
variable {t : Trace}

theorem Copying.event {phase : Phase} {slot : Nat} {copy : Copy} (h : Copying t phase slot copy) {event : MouseEvent}
    (hevent : copy.event = some event) : t.queued[t.taken.length]? = some event := by
  simp only [Copy.event, Option.bind_eq_bind, Option.bind_eq_some_iff, Option.pure_def, Option.some.injEq] at hevent
  obtain ⟨dx, hdx, dy, hdy, left, hleft, right, hright, middle, hmiddle, rfl⟩ := hevent
  have hdx := h.loaded _ _ hdx
  have hsame : ∀ field e, copy field = some e → e = dx := fun field e he =>
    Option.some.inj ((h.loaded field e he).symm.trans hdx)
  rw [hdx, hsame _ _ hdy, hsame _ _ hleft, hsame _ _ hright, hsame _ _ hmiddle]

theorem QueueInv.interrupt (h : QueueInv t) (event : MouseEvent) (hkeeps : ¬t.Disturbs (.interrupt event)) :
    QueueInv (t.step (.interrupt event)) := by
  have hc := h.count
  have hb := h.bounded
  rw [Trace.step, pushEvent]
  by_cases hfull : t.queue.count = eventCapacity
  · rw [if_pos hfull, if_pos hfull]
    exact h
  rw [if_neg hfull, if_neg hfull]
  have hlen : (t.queued ++ [event]).length = t.queued.length + 1 := by simp
  have hcap : eventCapacity = 64 := rfl
  have hgrow : ∀ {e : MouseEvent}, t.taken.length < t.queued.length → t.queued[t.taken.length]? = some e →
      (t.queued ++ [event])[t.taken.length]? = some e := by
    intro e hlt he
    rw [List.getElem?_append_left hlt, he]
  constructor
  case ordered => exact h.ordered.trans (List.prefix_append _ _)
  case count =>
    dsimp only
    rw [hlen]
    omega
  case bounded =>
    dsimp only
    omega
  case head =>
    dsimp only
    rw [hlen, h.head, hcap]
    omega
  case tail => exact h.tail
  case retains =>
    dsimp only
    rw [h.head]
    exact (h.retains.write (by omega) event).append (Function.update_self ..)
  case nonempty =>
    intro hreader
    have hlt := h.nonempty hreader
    dsimp only
    omega
  case copying =>
    intro phase slot copy hreader
    have hcopy := h.copying phase slot copy hreader
    have hlt := h.nonempty (by rw [hreader]; exact Reader.noConfusion)
    refine ⟨hcopy.place, fun field hfield => ?_, fun field e he => hgrow hlt (hcopy.loaded field e he), hcopy.tail,
      fun count hphase => ?_⟩
    · -- the slot is still to be loaded, so the interrupt has not written it
      have hslot : slot ≠ t.queue.head := fun heq =>
        hkeeps ⟨⟨event, rfl⟩, hfull, phase, slot, copy, hreader, .inr ⟨heq.symm, field, hfield⟩⟩
      dsimp only
      rw [Function.update_of_ne hslot]
      exact hgrow hlt (hcopy.pending field hfield)
    · exact absurd ⟨⟨event, rfl⟩, hfull, phase, slot, copy, hreader, .inl ⟨count, hphase⟩⟩ hkeeps

theorem QueueInv.load (h : QueueInv t) (field : EventField) : QueueInv (t.step (.load field)) := by
  rw [Trace.step, loadField]
  cases hreader : t.queue.reader with
  | idle => exact h
  | nonempty => exact h
  | copying phase slot copy =>
    dsimp only
    by_cases hfield : copy field = none
    swap
    · rw [if_neg hfield]
      exact h
    rw [if_pos hfield]
    have hcopy := h.copying phase slot copy hreader
    have hslot := hcopy.pending field hfield
    have hahead : (Reader.copying phase slot (Function.update copy field (some (t.queue.events slot)))).tailAhead =
        t.queue.reader.tailAhead := by
      rw [hreader]
      cases phase <;> rfl
    have hbehind : (Reader.copying phase slot (Function.update copy field (some (t.queue.events slot)))).countBehind =
        t.queue.reader.countBehind := by
      rw [hreader]
      cases phase <;> rfl
    refine ⟨h.ordered, hbehind ▸ h.count, h.bounded, h.head, hahead ▸ h.tail, hbehind ▸ h.retains,
      fun _ => h.nonempty (by rw [hreader]; exact Reader.noConfusion), ?_⟩
    rintro _ _ _ hnew
    obtain ⟨rfl, rfl, rfl⟩ := Reader.copying.inj hnew
    refine ⟨hcopy.place, fun field' hnone => ?_, fun field' e he => ?_, hcopy.tail, hcopy.count⟩
    · by_cases hsame : field' = field
      · rw [hsame, Function.update_self] at hnone
        cases hnone
      · rw [Function.update_of_ne hsame] at hnone
        exact hcopy.pending field' hnone
    · by_cases hsame : field' = field
      · rw [hsame, Function.update_self] at he
        rw [← Option.some.inj he]
        exact hslot
      · rw [Function.update_of_ne hsame] at he
        exact hcopy.loaded field' e he

theorem QueueInv.enter (h : QueueInv t) (hreader : t.queue.reader = .idle) (hcount : t.queue.count ≠ 0) :
    QueueInv ⟨{ t.queue with reader := .nonempty }, t.queued, t.taken⟩ := by
  have hc := h.count
  have hahead := h.tail
  have hretains := h.retains
  rw [hreader] at hc hahead hretains
  refine ⟨h.ordered, hc, h.bounded, h.head, hahead, hretains, fun _ => ?_, fun _ _ _ heq => nomatch heq⟩
  change t.queue.count + t.taken.length + 0 = t.queued.length at hc
  dsimp only
  omega

theorem QueueInv.locate (h : QueueInv t) (hreader : t.queue.reader = .nonempty) :
    QueueInv ⟨{ t.queue with reader := .copying .loadedTail t.queue.tail fun _ => none }, t.queued, t.taken⟩ := by
  have hlt := h.nonempty (by rw [hreader]; exact Reader.noConfusion)
  have hc := h.count
  have htail := h.tail
  have hretains := h.retains
  rw [hreader] at hc htail hretains
  refine ⟨h.ordered, hc, h.bounded, h.head, htail, hretains, fun _ => hlt, ?_⟩
  rintro _ _ _ hnew
  obtain ⟨rfl, rfl, rfl⟩ := Reader.copying.inj hnew
  refine ⟨htail, fun _ _ => ?_, fun _ _ he => (nomatch he), fun _ hphase => (nomatch hphase),
    fun _ hphase => (nomatch hphase)⟩
  dsimp only
  rw [htail, List.getElem?_eq_getElem hlt]
  exact congrArg some (hretains t.taken.length (Nat.le_refl _) hlt).symm

theorem QueueInv.advance (h : QueueInv t) {phase phase' : Phase} {slot : Nat} {copy : Copy}
    (hreader : t.queue.reader = .copying phase slot copy)
    (hahead : (Reader.copying phase' slot copy).tailAhead = (Reader.copying phase slot copy).tailAhead)
    (hbehind : (Reader.copying phase' slot copy).countBehind = (Reader.copying phase slot copy).countBehind)
    (htail : ∀ tail, phase' = .reloadedTail tail → tail = t.taken.length % eventCapacity)
    (hcount : ∀ count, phase' = .loadedCount count → count = t.queue.count) :
    QueueInv ⟨{ t.queue with reader := .copying phase' slot copy }, t.queued, t.taken⟩ := by
  -- an access that changes neither the tail nor the counter
  have hcopy := h.copying phase slot copy hreader
  have hlt := h.nonempty (by rw [hreader]; exact Reader.noConfusion)
  rw [← hreader] at hahead hbehind
  refine ⟨h.ordered, hbehind ▸ h.count, h.bounded, h.head, hahead ▸ h.tail, hbehind ▸ h.retains, fun _ => hlt, ?_⟩
  rintro _ _ _ hnew
  obtain ⟨rfl, rfl, rfl⟩ := Reader.copying.inj hnew
  exact ⟨hcopy.place, hcopy.pending, hcopy.loaded, htail, hcount⟩

theorem QueueInv.storeTail (h : QueueInv t) {tail slot : Nat} {copy : Copy}
    (hreader : t.queue.reader = .copying (.reloadedTail tail) slot copy) :
    QueueInv ⟨{ t.queue with tail := (tail + 1) % eventCapacity, reader := .copying .storedTail slot copy },
      t.queued, t.taken⟩ := by
  have hcopy := h.copying _ slot copy hreader
  have hlt := h.nonempty (by rw [hreader]; exact Reader.noConfusion)
  have hc := h.count
  have hretains := h.retains
  rw [hreader] at hc hretains
  refine ⟨h.ordered, hc, h.bounded, h.head, ?_, hretains, fun _ => hlt, ?_⟩
  · change (tail + 1) % eventCapacity = (t.taken.length + 1) % eventCapacity
    rw [hcopy.tail tail rfl, Nat.mod_add_mod]
  · rintro _ _ _ hnew
    obtain ⟨rfl, rfl, rfl⟩ := Reader.copying.inj hnew
    exact ⟨hcopy.place, hcopy.pending, hcopy.loaded, fun _ hphase => (nomatch hphase),
      fun _ hphase => (nomatch hphase)⟩

theorem QueueInv.storeCount (h : QueueInv t) {count slot : Nat} {copy : Copy}
    (hreader : t.queue.reader = .copying (.loadedCount count) slot copy) :
    QueueInv ⟨{ t.queue with count := (count + (2 ^ 8 - 1)) % 2 ^ 8, reader := .copying .storedCount slot copy },
      t.queued, t.taken⟩ := by
  -- no interrupt has queued an event since the load, so the decremented count is the right one
  have hcopy := h.copying _ slot copy hreader
  have hlt := h.nonempty (by rw [hreader]; exact Reader.noConfusion)
  have hc := h.count
  have hb := h.bounded
  have htail := h.tail
  have hretains := h.retains
  rw [hreader] at hc htail hretains
  change t.queue.count + t.taken.length + 0 = t.queued.length at hc
  have hstored : (count + (2 ^ 8 - 1)) % 2 ^ 8 = t.queue.count - 1 := by
    rw [hcopy.count count rfl]
    unfold eventCapacity at hb
    omega
  refine ⟨h.ordered, ?_, ?_, h.head, htail, hretains.drop (Nat.le_succ _), fun _ => hlt, ?_⟩
  · change (count + (2 ^ 8 - 1)) % 2 ^ 8 + t.taken.length + 1 = t.queued.length
    omega
  · dsimp only
    omega
  · rintro _ _ _ hnew
    obtain ⟨rfl, rfl, rfl⟩ := Reader.copying.inj hnew
    exact ⟨hcopy.place, hcopy.pending, hcopy.loaded, fun _ hphase => (nomatch hphase),
      fun _ hphase => (nomatch hphase)⟩

theorem QueueInv.return (h : QueueInv t) {slot : Nat} {copy : Copy} {event : MouseEvent}
    (hreader : t.queue.reader = .copying .storedCount slot copy) (hevent : copy.event = some event) :
    QueueInv ⟨{ t.queue with reader := .idle }, t.queued, t.taken ++ [event]⟩ := by
  have hnext := (h.copying _ slot copy hreader).event hevent
  have hlen : (t.taken ++ [event]).length = t.taken.length + 1 := by simp
  have hc := h.count
  have htail := h.tail
  have hretains := h.retains
  rw [hreader] at hc htail hretains
  refine ⟨?_, ?_, h.bounded, h.head, ?_, ?_, fun hidle => absurd rfl hidle, fun _ _ _ heq => nomatch heq⟩
  · obtain ⟨rest, hrest⟩ := h.ordered
    rw [← hrest, List.getElem?_append_right (Nat.le_refl _), Nat.sub_self] at hnext
    rw [← hrest]
    obtain ⟨rest, rfl⟩ : ∃ l, rest = event :: l := by
      cases rest with
      | nil => cases hnext
      | cons e l => exact ⟨l, by rw [Option.some.inj hnext]⟩
    exact ⟨rest, by rw [List.append_assoc, List.singleton_append]⟩
  · change t.queue.count + (t.taken ++ [event]).length + 0 = t.queued.length
    change t.queue.count + t.taken.length + 1 = t.queued.length at hc
    omega
  · change t.queue.tail = ((t.taken ++ [event]).length + 0) % eventCapacity
    rw [hlen]
    exact htail
  · change Retains t.queue.events eventCapacity t.queued ((t.taken ++ [event]).length + 0)
    rw [hlen]
    exact hretains

theorem QueueInv.read (h : QueueInv t) : QueueInv (t.step .read) := by
  rw [Trace.step, readStep]
  cases hreader : t.queue.reader with
  | idle =>
    dsimp only [Reader.returned, Option.toList]
    rw [List.append_nil]
    split_ifs with hempty
    · exact h
    · exact h.enter hreader hempty
  | nonempty =>
    dsimp only [Reader.returned, Option.toList]
    rw [List.append_nil]
    exact h.locate hreader
  | copying phase slot copy =>
    have hcopy := h.copying phase slot copy hreader
    cases phase with
    | loadedTail =>
      dsimp only [Reader.returned, Option.toList]
      rw [List.append_nil]
      refine h.advance hreader rfl rfl (fun tail hphase => ?_) fun _ hphase => nomatch hphase
      have htail := h.tail
      rw [hreader] at htail
      rw [← Phase.reloadedTail.inj hphase]
      exact htail
    | reloadedTail tail =>
      dsimp only [Reader.returned, Option.toList]
      rw [List.append_nil]
      exact h.storeTail hreader
    | storedTail =>
      dsimp only [Reader.returned, Option.toList]
      rw [List.append_nil]
      exact h.advance hreader rfl rfl (fun _ hphase => nomatch hphase) fun count hphase => (Phase.loadedCount.inj hphase).symm
    | loadedCount count =>
      dsimp only [Reader.returned, Option.toList]
      rw [List.append_nil]
      exact h.storeCount hreader
    | storedCount =>
      dsimp only [Reader.returned]
      cases hevent : copy.event with
      | none =>
        dsimp only [Option.toList]
        rw [List.append_nil]
        exact h
      | some event => exact h.return hreader hevent

theorem queueInv_run : ∀ (steps : List Step) {t : Trace}, QueueInv t → t.Undisturbed steps →
    QueueInv (t.run steps) := by
  intro steps
  induction steps with
  | nil => exact fun h _ => h
  | cons st rest ih =>
    rintro t h ⟨hst, hrest⟩
    refine ih ?_ hrest
    cases st with
    | interrupt event => exact h.interrupt event hst
    | read => exact h.read
    | load field => exact h.load field

end Step

theorem queueInv_start : QueueInv .start where
  ordered := List.nil_prefix
  count := rfl
  bounded := Nat.zero_le _
  head := rfl
  tail := rfl
  retains := retains_nil _ _ _
  nonempty h := absurd rfl h
  copying _ _ _ h := nomatch h

/-- **Mouse queue.** In every run in which no event is queued between the load and the store of the decrement,
nor into the slot that `read_event` still has to load, the events taken are a prefix of the events queued, an
event is discarded only while 64 events wait, and between two calls of `read_event` the counter is the number
of waiting events, so `has_event` holds exactly when one is left. -/
theorem mouse_runs (steps : List Step) (hundisturbed : Trace.start.Undisturbed steps) :
    let t := Trace.start.run steps
    t.taken <+: t.queued ∧
    (∀ event, (t.step (.interrupt event)).queued = t.queued ++ [event] ∨
      (t.step (.interrupt event)).queued = t.queued ∧
        t.queued.length = t.taken.length + t.queue.reader.countBehind + 64) ∧
    (t.queue.reader = .idle → t.queue.count = t.queued.length - t.taken.length ∧
      (hasEvent t.queue = true ↔ t.taken ≠ t.queued)) := by
  intro t
  have h : QueueInv t := queueInv_run steps queueInv_start hundisturbed
  have hc := h.count
  refine ⟨h.ordered, fun event => ?_, fun hidle => ?_⟩
  · rw [Trace.step]
    split_ifs with hfull
    · unfold eventCapacity at hfull
      exact .inr ⟨rfl, by omega⟩
    · exact .inl rfl
  · rw [hidle] at hc
    change t.queue.count + t.taken.length + 0 = t.queued.length at hc
    refine ⟨by omega, ?_⟩
    unfold hasEvent
    rw [decide_eq_true_eq]
    constructor
    · rintro hne heq
      rw [heq] at hc
      omega
    · intro hne hzero
      exact hne (h.ordered.eq_of_length (by omega))

def leftClick : MouseEvent := ⟨0, 0, true, false, false⟩

def leftRelease : MouseEvent := ⟨0, 0, false, false, false⟩

/-- `read_event` on a queue with an event, the slot loaded as late as possible. -/
def lateRead : List Step :=
  List.replicate 6 .read ++ [.load .dx, .load .dy, .load .left, .load .right, .load .middle, .read]

def clickRead : List Step := .interrupt leftClick :: .interrupt leftRelease :: lateRead

theorem mouse_runs_clickRead :
    (Trace.start.run clickRead).taken = [leftClick] ∧ (Trace.start.run clickRead).queue.count = 1 ∧
    (hasEvent (Trace.start.run clickRead).queue = true ↔
      (Trace.start.run clickRead).taken ≠ (Trace.start.run clickRead).queued) := by
  have hundisturbed : Trace.start.Undisturbed clickRead := by
    have hread : ∀ t : Trace, ¬t.Disturbs .read := fun _ hdisturbs => nomatch hdisturbs.1
    have hload : ∀ (t : Trace) field, ¬t.Disturbs (.load field) := fun _ _ hdisturbs => nomatch hdisturbs.1
    refine ⟨fun hdisturbs => ?_, fun hdisturbs => ?_, hread _, hread _, hread _, hread _, hread _, hread _,
      hload _ _, hload _ _, hload _ _, hload _ _, hload _ _, hread _, trivial⟩
    · obtain ⟨-, -, _, _, _, heq, -⟩ := hdisturbs
      exact nomatch heq
    · obtain ⟨-, -, _, _, _, heq, -⟩ := hdisturbs
      exact nomatch heq
  exact ⟨rfl, rfl, ((mouse_runs clickRead hundisturbed).2.2 rfl).2⟩

/-- The release arrives between the load and the store of `--g_count`; the slot has been loaded before. -/
def lostIncrement : List Step :=
  .interrupt leftClick :: List.replicate 2 .read ++
    [.load .dx, .load .dy, .load .left, .load .right, .load .middle] ++ List.replicate 3 .read ++
    [.interrupt leftRelease, .read, .read]

/-- With 64 events queued, one more arrives between the store of `--g_count` and the load of the slot. -/
def overwrittenSlot : List Step :=
  .interrupt leftClick :: List.replicate 63 (.interrupt leftRelease) ++ List.replicate 6 .read ++
    [.interrupt ⟨1, 1, false, false, false⟩, .load .dx, .load .dy, .load .left, .load .right, .load .middle, .read]

set_option maxRecDepth 4000 in
/-- In the first run the increment of the interrupt is overwritten: an event is queued, no `read_event` is in
progress, and the counter is 0. In the second `read_event` returns the newest event in place of the oldest. -/
theorem mouse_queue_disturbed :
    ((Trace.start.run lostIncrement).queue.reader = .idle ∧
      (Trace.start.run lostIncrement).queued = [leftClick, leftRelease] ∧
      (Trace.start.run lostIncrement).taken = [leftClick] ∧ (Trace.start.run lostIncrement).queue.count = 0 ∧
      hasEvent (Trace.start.run lostIncrement).queue = false) ∧
    (Trace.start.run overwrittenSlot).queue.reader = .idle ∧
      (Trace.start.run overwrittenSlot).queued.head? = some leftClick ∧
      (Trace.start.run overwrittenSlot).taken = [⟨1, 1, false, false, false⟩] :=
  ⟨⟨rfl, rfl, rfl, rfl, rfl⟩, rfl, rfl, by decide +kernel⟩

end MouseQueue

end Linux95.Input
