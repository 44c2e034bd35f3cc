import PulseVM.Ship.Stream

/-!
The slots of a session. A `get_blocks` request stores its window in the budget, the
streaming task takes a slot for every response and acknowledgements give slots back. The
window is stored while the task of the request before is still running, and both tasks
work on the same budget.
-/

namespace PulseVM.Ship

/-- Addition to an `i64`. -/
def fetchAdd (budget : Int) (amount : Nat) : Int := (budget + amount).bmod (2 ^ 64)

def GetBlocksRequestV0.window (request : GetBlocksRequestV0) : Nat :=
  if request.maxMessagesInFlight = 0 then 16 else request.maxMessagesInFlight

/-- What a task does between two points where others may run. -/
inductive Turn where
  | load
  | exchange
  | respond (c : View) (delivered : Bool)

/-- One turn of a task, with the budget before and after it. -/
def Stream.turn (s : Stream) (budget : Int) : Turn → Option (Int × Stream)
  | .load => match s.point with
    | .acquiring =>
      some (budget, { s with point := if free : 0 < budget then .loaded ⟨budget, free⟩ else .acquiring })
    | _ => none
  | .exchange => match s.point with
    | .loaded current =>
      if budget = current then some (current - 1, { s with point := .holding })
      else some (budget, { s with point := .acquiring })
    | _ => none
  | .respond c delivered => match s.point with
    | .holding =>
      let (after, back) := s.respond c delivered
      some (if back then fetchAdd budget 1 else budget, after)
    | _ => none

/-- A session between two requests has one task, or none before the first request. Once the
window of the next one is stored its task is pending until the one before has stopped. -/
structure Session where
  budget : Int
  stream : Option Stream
  pending : Option Stream
  window : Nat
  acknowledged : Nat

inductive Event where
  | getBlocks (c : View) (request : GetBlocksRequestV0)
  | stop
  | spawn
  | acknowledge (numMessages : Nat)
  | turn (turn : Turn)

namespace Session

def new : Session := ⟨0, none, none, 0, 0⟩

/-- A task stops where it waits, and between its load and its exchange it does not. -/
def step (s : Session) : Event → Option Session
  | .getBlocks c request => match s.pending, c.updateCurrentRequest request with
    | none, .ok (updated, toSend) =>
      some ⟨request.window, s.stream, some ⟨updated, toSend, [], .acquiring⟩, request.window, 0⟩
    | _, _ => none
  | .stop => match s.pending, s.stream with
    | some _, some ⟨_, _, _, .loaded _⟩ => none
    | some _, some _ => some { s with stream := none }
    | _, _ => none
  | .spawn => match s.pending, s.stream with
    | some stream, none => some { s with stream := some stream, pending := none }
    | _, _ => none
  | .acknowledge numMessages => match s.pending with
    | none => some { s with
        budget := fetchAdd s.budget numMessages
        acknowledged := s.acknowledged + numMessages }
    | some _ => none
  | .turn turn => s.stream.bind fun stream =>
    (stream.turn s.budget turn).map fun (budget, stream) => { s with budget, stream := some stream }

inductive Reachable (allowed : Session → Session → Prop) : Session → Prop
  | new : Reachable allowed new
  | step {s t : Session} (event : Event) : Reachable allowed s → s.step event = some t →
      allowed s t → Reachable allowed t

/-- While a task is pending the one before it leaves the budget alone, and the slots given
out for a request stay below the range of the counter. -/
def Calm (s t : Session) : Prop :=
  (s.pending.isSome → t.budget = s.budget) ∧ t.window + t.acknowledged < 2 ^ 63

end Session

def Point.slots : Point → Nat
  | .holding | .cut => 1
  | _ => 0

/-- The slots a task has taken and not given back. -/
def Stream.used (s : Stream) : Nat := s.sent.length + s.point.slots

theorem fetchAdd_eq {budget : Int} {amount : Nat} (low : 0 ≤ budget) (high : budget + amount < 2 ^ 63) :
    fetchAdd budget amount = budget + amount :=
  Int.bmod_eq_of_le (by omega) (by omega)

theorem Stream.respond_used (c : View) (delivered : Bool) {s : Stream} (holds : s.point = .holding) :
    (s.respond c delivered).1.used + (s.respond c delivered).2.toNat = s.used := by
  unfold Stream.respond Stream.used
  rw [holds]
  split
  · rfl
  · split
    · simp only [List.length_append, List.length_singleton]
      split <;> rfl
    · rfl

/-- A turn moves slots between the budget and the task. -/
theorem Stream.turn_balance {s after : Stream} {budget left : Int} {turn : Turn}
    (turned : s.turn budget turn = some (left, after)) (low : 0 ≤ budget)
    (high : budget + s.used < 2 ^ 63) : 0 ≤ left ∧ left + after.used = budget + s.used := by
  cases point : s.point <;> cases turn <;> simp only [Stream.turn, point, reduceCtorEq] at turned
  · cases turned
    dsimp only [Stream.used]
    rw [point]
    split <;> exact ⟨low, rfl⟩
  · next current =>
    split at turned <;> cases turned
    · next same =>
      simp only [Stream.used, Point.slots, point, same]
      omega
    · refine ⟨low, ?_⟩
      simp only [Stream.used, Point.slots, point]
  · next c delivered =>
    have same := s.respond_used c delivered point
    cases turned
    cases back : (s.respond c delivered).2 with
    | false =>
      rw [back] at same
      simp only [Bool.toNat_false] at same
      rw [if_neg Bool.false_ne_true]
      omega
    | true =>
      rw [back] at same
      simp only [Bool.toNat_true] at same
      rw [if_pos rfl, fetchAdd_eq low (by omega)]
      omega

namespace Session

/-- The slots of the current task, which a pending one already is. -/
def used (s : Session) : Nat := (s.pending.or s.stream).elim 0 Stream.used

structure Balanced (s : Session) : Prop where
  low : 0 ≤ s.budget
  high : s.window + s.acknowledged < 2 ^ 63
  balance : s.budget + s.used = s.window + s.acknowledged

theorem Balanced.next {s t : Session} {event : Event} (balanced : s.Balanced)
    (stepped : s.step event = some t) (calm : s.Calm t) : t.Balanced := by
  obtain ⟨low, high, balance⟩ := balanced
  obtain ⟨quiet, small⟩ := calm
  obtain ⟨budget, stream, pending, window, acknowledged⟩ := s
  cases event with
  | getBlocks c request =>
    simp only [step] at stepped
    split at stepped <;> cases stepped
    exact ⟨Int.natCast_nonneg _, small, rfl⟩
  | stop =>
    cases pending <;> cases stream <;> simp only [step, reduceCtorEq] at stepped
    split at stepped <;> cases stepped
    exact ⟨low, high, balance⟩
  | spawn =>
    cases pending <;> cases stream <;> simp only [step, reduceCtorEq] at stepped
    cases stepped
    exact ⟨low, high, balance⟩
  | acknowledge numMessages =>
    cases pending <;> simp only [step, reduceCtorEq] at stepped
    cases stepped
    have same : fetchAdd budget numMessages = budget + numMessages := fetchAdd_eq low (by
      simp only at balance small
      omega)
    refine ⟨?_, small, ?_⟩
    · dsimp only at low ⊢
      omega
    · change budget + (Option.elim stream 0 Stream.used : Nat) = _ at balance
      change fetchAdd budget numMessages + (Option.elim stream 0 Stream.used : Nat) = _
      push_cast at balance ⊢
      omega
  | turn turn =>
    obtain ⟨stream, rfl, turned⟩ := Option.bind_eq_some_iff.mp stepped
    obtain ⟨⟨left, after⟩, done, rfl⟩ := Option.map_eq_some_iff.mp turned
    cases pending with
    | some pending =>
      have same : left = budget := quiet rfl
      rw [same]
      exact ⟨low, high, balance⟩
    | none =>
      obtain ⟨low, same⟩ := stream.turn_balance done low (balance.trans_lt (by exact_mod_cast high))
      exact ⟨low, high, same.trans balance⟩

theorem Reachable.balanced {s : Session} (reachable : s.Reachable Calm) : s.Balanced := by
  induction reachable with
  | new => exact ⟨Int.le_refl 0, by decide, rfl⟩
  | step event _ stepped calm balanced => exact balanced.next stepped calm

/-- In a calm run the current task never has more responses out than its window and the
acknowledgements since, and without a slot in hand the budget is exactly the rest. -/
theorem Reachable.within_window {s : Session} {stream : Stream} (reachable : s.Reachable Calm)
    (idle : s.pending = none) (current : s.stream = some stream) :
    stream.sent.length ≤ s.window + s.acknowledged ∧
      (stream.point.slots = 0 → s.budget = s.window + s.acknowledged - stream.sent.length) := by
  obtain ⟨low, _, balance⟩ := reachable.balanced
  simp only [used, idle, current, Option.none_or, Option.elim_some, Stream.used] at balance
  omega

def oneBlock (start : Nat) : GetBlocksRequestV0 :=
  { View.blocksRequest start 9 [] with maxMessagesInFlight := 1 }

instance (s t : Session) : Decidable (Calm s t) := inferInstanceAs (Decidable (_ ∧ _))

/-- Follow events as long as they are calm. -/
def follow (s : Session) (events : List Event) : Option Session :=
  events.foldlM (fun s event => (step s event).filter fun t => Calm s t) s

theorem Reachable.follow {s t : Session} {events : List Event} (reachable : s.Reachable Calm)
    (followed : s.follow events = some t) : t.Reachable Calm := by
  induction events generalizing s with
  | nil =>
    cases followed
    exact reachable
  | cons event rest ih =>
    rw [Session.follow, List.foldlM_cons] at followed
    obtain ⟨next, stepped, followed⟩ := Option.bind_eq_some_iff.mp followed
    obtain ⟨stepped, calm⟩ := Option.filter_eq_some_iff.mp stepped
    exact ih (reachable.step event stepped (of_decide_eq_true calm)) followed

/-- A request is served and acknowledged; the next one comes when its task has stopped to
wait, and is served and acknowledged in turn. -/
def twoRequests : List Event :=
  [.getBlocks View.small (oneBlock 1), .spawn, .turn .load, .turn .exchange,
    .turn (.respond View.small true), .acknowledge 1, .turn .load, .turn .exchange,
    .turn (.respond View.small true), .getBlocks View.small (oneBlock 2), .stop, .spawn,
    .turn .load, .turn .exchange, .turn (.respond View.small true), .turn .load, .acknowledge 2]

theorem within_window_twoRequests : ∃ s stream,
    new.follow twoRequests = some s ∧ s.stream = some stream ∧ s.window = 1 ∧
      s.acknowledged = 2 ∧ stream.sent.length = 1 ∧
      stream.sent.length ≤ s.window + s.acknowledged ∧ s.budget = 2 := by
  have shape : (new.follow twoRequests).any fun s => s.pending.isNone ∧ s.window = 1 ∧
      s.acknowledged = 2 ∧ s.stream.any fun stream =>
        stream.sent.length = 1 ∧ stream.point.slots = 0 := by
    decide +kernel
  obtain ⟨s, followed, rest⟩ := (Option.any_eq_true _ _).mp shape
  obtain ⟨idle, window, acknowledged, current⟩ := of_decide_eq_true rest
  obtain ⟨stream, found, counts⟩ := (Option.any_eq_true _ _).mp current
  obtain ⟨sent, free⟩ := of_decide_eq_true counts
  obtain ⟨within, exact_⟩ := (Reachable.new.follow followed).within_window
    (Option.isNone_iff_eq_none.mp idle) found
  refine ⟨s, stream, followed, found, window, acknowledged, sent, within, ?_⟩
  rw [exact_ free, window, acknowledged, sent]
  rfl

/-- A task holds the slot of its request when the next request stores its window, and gives
the slot back into that window because its block is not there. -/
def slotGivenBack : List Event :=
  [.getBlocks View.small (oneBlock 4), .spawn, .turn .load, .turn .exchange,
    .getBlocks View.small (oneBlock 1), .turn (.respond View.small true), .stop, .spawn,
    .turn .load, .turn .exchange, .turn (.respond View.small true),
    .turn .load, .turn .exchange, .turn (.respond View.small true)]

theorem slotGivenBack_sent : (slotGivenBack.foldlM step new).map (fun s =>
    (s.pending.isNone, s.stream.map (·.sent.length), s.window, s.acknowledged)) =
      some (true, some 2, 1, 0) := rfl

end Session

end PulseVM.Ship
