import PulseVM.Chain.Exec

/-!
The order in which an action runs. The receivers of an action form a queue that grows while
it is worked off, and inline actions are kept as ordinals of traces. What comes out is a tree:
an action runs its receivers, each account once in the order in which it was first asked for,
and then the actions that they have sent, each with everything below it.
-/

namespace PulseVM.Chain
open Lib.Calls Lib.Calls.Call
open Yields hiding bind read_bind

/-! What a log says. -/

namespace Event

def begun? : Event → Option UInt64
  | .began receiver _ => some receiver
  | _ => none

def asked? : Event → Option UInt64
  | .notified recipient => some recipient
  | _ => none

def sent? (contextFree : Bool) : Event → Option Action
  | .scheduled kind action => if kind = contextFree then some action else none
  | _ => none

end Event

def begun (events : List Event) : List UInt64 := events.filterMap Event.begun?

def asked (events : List Event) : List UInt64 := events.filterMap Event.asked?

def sent (contextFree : Bool) (events : List Event) : List Action :=
  events.filterMap (Event.sent? contextFree)

/-- The events of an action: those of its receivers, then the runs of the context free actions
they have sent, then those of the others. -/
inductive Runs : Action → UInt64 → List Event → Prop
  | intro {action : Action} {receiver : UInt64} {own : List Event}
      {contextFree others : List (List Event)} :
      (∀ r a, Event.began r a ∈ own → a = action) →
      begun own = (receiver :: asked own).eraseDups →
      List.Forall₂ (fun a events => Runs a a.account events) (sent true own) contextFree →
      List.Forall₂ (fun a events => Runs a a.account events) (sent false own) others →
      Runs action receiver (own ++ contextFree.flatten ++ others.flatten)

namespace ExecState

/-! Traces. -/

/-- The trace with this ordinal is about the action and the receiver. -/
def Points (s : ExecState) (ordinal : Nat) (action : Action) (receiver : UInt64) : Prop :=
  (s.traces[ordinal - 1]?).map (fun trace => (trace.act, trace.receiver)) = some (action, receiver)

/-- Traces are added, and no trace changes what it is about. -/
def Grown (s t : ExecState) : Prop :=
  s.traces.map (fun trace => (trace.act, trace.receiver)) <+:
    t.traces.map (fun trace => (trace.act, trace.receiver))

instance : IsPreorder ExecState Grown where
  refl _ := List.prefix_rfl
  trans _ _ _ first second := first.trans second

theorem Points.grown {s t : ExecState} (grown : s.Grown t) {ordinal : Nat} {action : Action}
    {receiver : UInt64} (points : s.Points ordinal action receiver) :
    t.Points ordinal action receiver := by
  obtain ⟨rest, more⟩ := grown
  unfold Points at points ⊢
  rw [← List.getElem?_map] at points ⊢
  rw [← more, List.getElem?_append_left]
  · exact points
  · exact (List.getElem?_eq_some_iff.mp points).1

end ExecState

namespace ExecCall
open ExecState

variable {α : Type} {w : World}

theorem grown_modifyActionTrace (ordinal : Nat) {f : ActionTrace → ActionTrace}
    (keeps : ∀ trace, (f trace).act = trace.act ∧ (f trace).receiver = trace.receiver) :
    Leads Grown (modifyActionTrace ordinal f) := by
  apply Moves.leads
  intro s
  unfold modifyActionTrace
  split
  · have same : (s.traces.modify (ordinal - 1) f).map (fun trace => (trace.act, trace.receiver)) =
        s.traces.map (fun trace => (trace.act, trace.receiver)) := by
      apply List.ext_getElem?
      intro i
      simp only [List.getElem?_map, List.getElem?_modify]
      cases s.traces[i]? with
      | none => rfl
      | some trace =>
        by_cases here : ordinal - 1 = i
        · simp [here, keeps trace]
        · simp [here]
    unfold Grown
    rw [same]
  · exact refl_of Grown s

end ExecCall

/-! One event more. -/

theorem begun_snoc (own : List Event) (event : Event) :
    begun (own ++ [event]) = begun own ++ event.begun?.toList := by
  unfold begun
  rw [List.filterMap_append]
  cases shape : event.begun? <;> simp [shape]

theorem asked_snoc (own : List Event) (event : Event) :
    asked (own ++ [event]) = asked own ++ event.asked?.toList := by
  unfold asked
  rw [List.filterMap_append]
  cases shape : event.asked? <;> simp [shape]

theorem sent_snoc (contextFree : Bool) (own : List Event) (event : Event) :
    sent contextFree (own ++ [event]) = sent contextFree own ++ (event.sent? contextFree).toList := by
  unfold sent
  rw [List.filterMap_append]
  cases shape : event.sent? contextFree <;> simp [shape]

theorem eraseDups_snoc (names : List UInt64) (more : Option UInt64) :
    (names ++ more.toList).eraseDups =
      names.eraseDups ++ more.toList.filter fun name => decide (name ∉ names) := by
  cases more with
  | none => simp
  | some name =>
    by_cases known : name ∈ names
    · simp [List.eraseDups_append, List.removeAll, known]
    · simp [List.eraseDups_append, List.removeAll, known, List.eraseDups_cons]

/-! The queue of an action. -/

/-- The receivers of an action while they run: what they have done since the state `base`, and
how many of the queue have begun. -/
structure Queue (base : ExecState) (action : Action) (receiver : UInt64) (started : Nat)
    (own : List Event) (s : ExecState) : Prop where
  log : s.log = base.log ++ own
  grown : base.Grown s
  running : s.action = action
  queued : s.notified.map Prod.fst = (receiver :: asked own).eraseDups
  distinct : (s.notified.map Prod.fst).Nodup
  points : ∀ entry ∈ s.notified, s.Points entry.2 action entry.1
  inside : started ≤ s.notified.length
  ran : begun own = (s.notified.take started).map Prod.fst
  same : ∀ r a, Event.began r a ∈ own → a = action
  contextFree : List.Forall₂ (fun ordinal a => s.Points ordinal a a.account)
    s.contextFreeInlineActions (sent true own)
  others : List.Forall₂ (fun ordinal a => s.Points ordinal a a.account)
    s.inlineActions (sent false own)

namespace Queue
open ExecState

variable {own : List Event} {action : Action} {receiver : UInt64} {started : Nat}
  {base s t : ExecState} (queue : Queue base action receiver started own s)

include queue

theorem known_iff (name : UInt64) :
    s.notified.any (·.1 == name) = true ↔ name ∈ receiver :: asked own := by
  rw [← List.mem_eraseDups, ← queue.queued]
  simp

theorem length_le : s.notified.length ≤ 2 ^ 64 := by
  have distinct : ((s.notified.map Prod.fst).map UInt64.toFin).Nodup :=
    queue.distinct.map UInt64.toFin_injective
  have bound := distinct.length_le_card
  simpa using bound

/-- What changes neither the queue nor the log nor what the traces are about. -/
theorem move (grown : s.Grown t) (log : t.log = s.log) (running : t.action = s.action)
    (notified : t.notified = s.notified)
    (free : t.contextFreeInlineActions = s.contextFreeInlineActions)
    (inline : t.inlineActions = s.inlineActions) : Queue base action receiver started own t where
  log := log.trans queue.log
  grown := trans_of Grown queue.grown grown
  running := running.trans queue.running
  queued := by rw [notified, queue.queued]
  distinct := by rw [notified]; exact queue.distinct
  points entry member := by
    rw [notified] at member
    exact (queue.points entry member).grown grown
  inside := by rw [notified]; exact queue.inside
  ran := by rw [notified, queue.ran]
  same := queue.same
  contextFree := by
    rw [free]
    exact queue.contextFree.imp fun _ _ => Points.grown grown
  others := by
    rw [inline]
    exact queue.others.imp fun _ _ => Points.grown grown

/-- One event more, with what it adds to the queue and to the lists of inline actions. -/
theorem extend {event : Event}
    {entries : List (UInt64 × Nat)} {free inline : List Nat} (grown : s.Grown t)
    (log : t.log = s.log ++ [event]) (running : t.action = action)
    (silent : event.begun? = none)
    (notified : t.notified = s.notified ++ entries)
    (names : entries.map Prod.fst =
      event.asked?.toList.filter fun name => decide (name ∉ receiver :: asked own))
    (points : ∀ entry ∈ entries, t.Points entry.2 action entry.1)
    (freeList : t.contextFreeInlineActions = s.contextFreeInlineActions ++ free)
    (freePoints : List.Forall₂ (fun ordinal a => t.Points ordinal a a.account) free
      (event.sent? true).toList)
    (inlineList : t.inlineActions = s.inlineActions ++ inline)
    (inlinePoints : List.Forall₂ (fun ordinal a => t.Points ordinal a a.account) inline
      (event.sent? false).toList) :
    Queue base action receiver started (own ++ [event]) t := by
  have queued : t.notified.map Prod.fst = (receiver :: asked (own ++ [event])).eraseDups := by
    rw [asked_snoc, ← List.cons_append, eraseDups_snoc, notified, List.map_append, queue.queued,
      names]
  have fresh : (entries.map Prod.fst).Nodup := by
    rw [names]
    apply List.Nodup.filter
    cases event.asked? <;> simp
  constructor
  case log => rw [log, queue.log, List.append_assoc]
  case grown => exact trans_of Grown queue.grown grown
  case running => exact running
  case queued => exact queued
  case distinct =>
    rw [notified, List.map_append]
    apply queue.distinct.append fresh
    intro name old new
    rw [queue.queued, List.mem_eraseDups] at old
    rw [names] at new
    simpa [old] using (List.mem_filter.mp new).2
  case points =>
    intro entry member
    rw [notified] at member
    rcases List.mem_append.mp member with old | new
    · exact (queue.points entry old).grown grown
    · exact points entry new
  case inside =>
    have inside := queue.inside
    rw [notified, List.length_append]
    omega
  case ran =>
    rw [begun_snoc, silent, notified, List.take_append_of_le_length queue.inside, queue.ran]
    simp
  case same =>
    intro r a member
    rcases List.mem_append.mp member with old | new
    · exact queue.same r a old
    · rw [← List.mem_singleton.mp new] at silent
      cases silent
  case contextFree =>
    rw [sent_snoc, freeList]
    exact List.rel_append (queue.contextFree.imp fun _ _ => Points.grown grown) freePoints
  case others =>
    rw [sent_snoc, inlineList]
    exact List.rel_append (queue.others.imp fun _ _ => Points.grown grown) inlinePoints

theorem begin {entry : UInt64 × Nat}
    (next : s.notified[started]? = some entry) :
    Queue base action receiver (started + 1) (own ++ [.began entry.1 action])
      { s with log := s.log ++ [.began entry.1 action] } := by
  have inside : started < s.notified.length := (List.getElem?_eq_some_iff.mp next).1
  constructor
  case log =>
    rw [queue.log, List.append_assoc]
  case grown => exact queue.grown
  case running => exact queue.running
  case queued =>
    rw [asked_snoc]
    simpa [Event.asked?] using queue.queued
  case distinct => exact queue.distinct
  case points => exact queue.points
  case inside => exact inside
  case ran =>
    rw [begun_snoc, queue.ran, List.take_add_one, next]
    simp [Event.begun?]
  case same =>
    intro r a member
    rcases List.mem_append.mp member with old | new
    · exact queue.same r a old
    · cases List.mem_singleton.mp new
      rfl
  case contextFree =>
    have silent : (Event.began entry.1 action).sent? true = none := rfl
    rw [sent_snoc, silent, Option.toList_none, List.append_nil]
    exact queue.contextFree
  case others =>
    have silent : (Event.began entry.1 action).sent? false = none := rfl
    rw [sent_snoc, silent, Option.toList_none, List.append_nil]
    exact queue.others

end Queue

namespace ExecCall
open ExecState

variable {own : List Event} {action : Action} {receiver current : UInt64}
  {started ordinal : Nat} {base s : ExecState} {w : World}

/-! Host calls of the receiver `current`, whose trace has the given ordinal. -/

theorem yields_getActionTrace {name : UInt64} (points : s.Points ordinal action name) :
    Yields s (getActionTrace ordinal) fun trace t =>
      t = s ∧ trace.act = action ∧ trace.receiver = name := by
  obtain ⟨trace, here, about⟩ := Option.map_eq_some_iff.mp points
  have found : getActionTrace ordinal s = (.ok trace, s) := by
    unfold getActionTrace
    rw [here]
  exact of_ok found ⟨rfl, (Prod.mk.inj about).1, (Prod.mk.inj about).2⟩

theorem yields_reloadAction {name : UInt64} (points : s.Points ordinal action name) :
    Yields s (reloadAction ordinal) fun _ t => t = { s with action := action } := by
  apply (yields_getActionTrace points).seq
  rintro trace t ⟨rfl, act, -⟩
  refine of_ok rfl ?_
  rw [act]

def traced (s : ExecState) (trace : ActionTrace) : ExecState :=
  { s with traces := s.traces ++ [trace] }

/-- The invariant of the queue while one of its receivers runs. -/
def Running (base : ExecState) (action : Action) (receiver : UInt64) (started : Nat)
    (current : UInt64 × Nat) (s : ExecState) : Prop :=
  current ∈ s.notified ∧ ∃ own, Queue base action receiver started own s

theorem yields_scheduled (points : s.Points ordinal action current) {act : Action} {name : UInt64}
    {contextFree : Bool} {creator closest : Nat} {next : Nat → ExecCall Unit}
    {post : Unit → ExecState → Prop}
    (later : ∀ trace, s.Grown (traced s trace) →
      (traced s trace).Points (s.traces.length + 1) act name →
      Yields { traced s trace with action := action } (next (s.traces.length + 1)) post) :
    Yields s (scheduleAction act name contextFree creator closest >>= fun new =>
      reloadAction ordinal >>= fun _ => next new) post := by
  have grown : ∀ trace, s.Grown (traced s trace) := by
    intro trace
    unfold Grown traced
    rw [List.map_append]
    exact List.prefix_append _ _
  refine ok_bind rfl ?_
  apply (yields_reloadAction (points.grown (grown _))).seq
  rintro _ _ rfl
  exact later _ (grown _) (by simp [Points, traced])

section Host

variable (running : Running base action receiver started (current, ordinal) s)

include running

theorem yields_requireRecipient (recipient : UInt64) :
    Yields s (requireRecipient ordinal recipient) fun _ t =>
      Running base action receiver started (current, ordinal) t := by
  obtain ⟨member, own, queue⟩ := running
  have points : s.Points ordinal action current := queue.points _ member
  have known := queue.known_iff recipient
  refine ok_bind rfl ?_
  apply Yields.read_bind
  split
  · next seen =>
    have dropped : (Event.notified recipient).asked?.toList.filter
        (fun name => decide (name ∉ receiver :: asked own)) = [] := by
      apply List.filter_eq_nil_iff.mpr
      intro name here absent
      rw [List.mem_singleton.mp here] at absent
      exact of_decide_eq_true absent (known.mp seen)
    exact of_pure ⟨member, _, queue.extend (refl_of Grown s) rfl queue.running rfl
      (List.append_nil _).symm dropped.symm (by simp) (List.append_nil _).symm .nil
      (List.append_nil _).symm .nil⟩
  · next unseen =>
    have absent : recipient ∉ receiver :: asked own := fun there => unseen (known.mpr there)
    have taken : (Event.notified recipient).asked?.toList.filter
        (fun name => decide (name ∉ receiver :: asked own)) = [recipient] := by
      simp only [Event.asked?, Option.toList_some, List.filter_cons, absent, not_false_eq_true,
        decide_true, if_true, List.filter_nil]
    have here : ExecState.Points { s with log := s.log ++ [.notified recipient] } ordinal action
        current := points
    unfold scheduleActionFromOrdinal
    rw [Call.bind_assoc']
    apply (yields_getActionTrace here).seq
    rintro provided _ ⟨rfl, act, -⟩
    apply yields_scheduled here
    intro trace grown pointed
    rw [act] at pointed
    refine of_ok rfl ⟨List.mem_append_left _ member, _, queue.extend grown rfl rfl rfl
      rfl taken.symm ?_ (List.append_nil _).symm .nil (List.append_nil _).symm .nil⟩
    intro entry new
    rw [List.mem_singleton.mp new]
    exact pointed

theorem yields_executeInline (sentAction : Action) (validated : Except ChainError Unit) :
    Yields s (executeInline ordinal sentAction validated) fun _ t =>
      Running base action receiver started (current, ordinal) t := by
  obtain ⟨member, own, queue⟩ := running
  apply run_bind rfl
  intro _ _
  apply yields_scheduled (queue.points _ member)
  intro trace grown pointed
  refine ok_bind rfl ?_
  exact of_ok rfl ⟨member, _, queue.extend grown rfl rfl rfl (List.append_nil _).symm
    rfl (by simp) (List.append_nil _).symm .nil rfl (.cons pointed .nil)⟩

theorem yields_executeContextFreeInline (env : ApplyEnv Action) (sentAction : Action) :
    Yields s (executeContextFreeInline env ordinal sentAction) fun _ t =>
      Running base action receiver started (current, ordinal) t := by
  obtain ⟨member, own, queue⟩ := running
  apply assert_bind
  intro _
  apply assert_bind
  intro _
  apply yields_scheduled (queue.points _ member)
  intro trace grown pointed
  refine ok_bind rfl ?_
  exact of_ok rfl ⟨member, _, queue.extend grown rfl rfl rfl (List.append_nil _).symm
    rfl (by simp) rfl (.cons pointed .nil) (List.append_nil _).symm .nil⟩

theorem yields_host (call : ApplyEnv Action × HostCall) :
    Yields s (host w current ordinal call) fun _ t =>
      Running base action receiver started (current, ordinal) t := by
  have charged (apply : ApplyState) :
      Running base action receiver started (current, ordinal) { s with apply := apply } := by
    obtain ⟨member, own, queue⟩ := running
    exact ⟨member, own, queue.move (refl_of Grown s) rfl rfl rfl rfl rfl⟩
  have onApply (call : ApplyCall Unit) : Yields s (onApply call) fun _ t =>
      Running base action receiver started (current, ordinal) t := by
    constructor
    intro _ t done
    obtain ⟨-, rfl⟩ := Prod.mk.inj done
    exact charged _
  apply Yields.read_bind
  cases call.2 with
  | database op => exact onApply _
  | addRamUsage account delta => exact onApply _
  | initializeAccountResourceLimits account => exact onApply _
  | requireRecipient recipient => exact yields_requireRecipient running recipient
  | executeInline action validated => exact yields_executeInline running action validated
  | executeContextFreeInline action => exact yields_executeContextFreeInline running _ action

theorem yields_hosts (calls : List (ApplyEnv Action × HostCall)) :
    Yields s (calls.forM (host w current ordinal)) fun _ t =>
      Running base action receiver started (current, ordinal) t := by
  induction calls generalizing s with
  | nil => exact of_pure running
  | cons call rest ih =>
    rw [forM_cons]
    apply (yields_host running call).seq
    exact fun _ _ => ih

end Host

/-! Receivers. -/

section Receivers

variable (queue : Queue base action receiver started own s)

include queue

theorem yields_modifyActionTrace {f : ActionTrace → ActionTrace}
    (keeps : ∀ trace, (f trace).act = trace.act ∧ (f trace).receiver = trace.receiver) :
    Yields s (modifyActionTrace ordinal f) fun _ t =>
      Queue base action receiver started own t := by
  constructor
  intro _ t done
  have grown := (grown_modifyActionTrace ordinal keeps).ok done
  unfold modifyActionTrace at done
  split at done
  · obtain ⟨-, rfl⟩ := Prod.mk.inj done
    exact queue.move grown rfl rfl rfl rfl rfl
  · cases done

theorem yields_finalize (receipt : ActionReceipt) :
    Yields s (finalizeTrace ordinal receipt) fun _ t =>
      Queue base action receiver started own t := by
  have settled : Queue base action receiver started own { s with
      apply := { s.apply with accountRamDeltas := fun _ => 0, chargedAccounts := [] } } :=
    queue.move (refl_of Grown s) rfl rfl rfl rfl rfl
  apply Yields.read_bind
  refine ok_bind rfl ?_
  exact yields_modifyActionTrace settled fun _ => ⟨rfl, rfl⟩

theorem yields_close (privileged : Bool) (receipt : Except ChainError ActionReceipt)
    (before : UInt64 → Option UInt64) :
    Yields s (closeReceiver w current ordinal action privileged receipt before) fun _ t =>
      ∃ own, Queue base action receiver started own t := by
  apply (leads_checkRamRestrictions (R := Eq) w _ action privileged s).seq
  rintro _ s rfl
  apply run_bind rfl
  intro receipt _
  have noted : Queue base action receiver started
      (own ++ [.finished current action privileged s.apply.accountRamDeltas before
        s.apply.ramUsage])
      { s with
        executedActionReceipts :=
          s.executedActionReceipts ++ [{ receipt with receiver := current }]
        log := s.log ++ [.finished current action privileged s.apply.accountRamDeltas before
          s.apply.ramUsage] } :=
    queue.extend (refl_of Grown s) rfl queue.running rfl (List.append_nil _).symm rfl (by simp)
      (List.append_nil _).symm .nil (List.append_nil _).symm .nil
  refine ok_bind rfl ?_
  refine ok_bind rfl ?_
  apply (yields_finalize noted _).imp
  exact fun _ _ later => ⟨_, later⟩

theorem yields_execOne (next : s.notified[started]? = some (current, ordinal)) :
    Yields s (execOne w current ordinal) fun _ t =>
      ∃ own, Queue base action receiver (started + 1) own t := by
  have member : (current, ordinal) ∈ s.notified := List.mem_of_getElem? next
  have begun := queue.begin next
  have working (privileged : Bool) :
      Running base action receiver (started + 1) (current, ordinal) { s with
        privileged := privileged
        log := s.log ++ [.began current action] } :=
    ⟨member, _, begun.move (refl_of Grown s) rfl rfl rfl rfl rfl⟩
  apply Yields.read_bind
  apply Yields.read_bind
  apply Yields.read_bind
  rw [queue.running]
  refine ok_bind rfl ?_
  apply run_bind rfl
  intro privileged _
  refine ok_bind rfl ?_
  apply (yields_hosts (working privileged) _).seq
  rintro _ t ⟨-, later, queue⟩
  apply run_bind rfl
  intro _ _
  exact yields_close queue privileged _ _

theorem yields_execNotified (fuel : Nat) (enough : 2 ^ 64 < fuel + started) :
    Yields s (execNotified w fuel started) fun _ t =>
      ∃ own, Queue base action receiver t.notified.length own t := by
  induction fuel generalizing s own started with
  | zero =>
    have short := queue.length_le
    have inside := queue.inside
    omega
  | succ fuel ih =>
    apply Yields.read_bind
    cases next : s.notified[started]? with
    | none =>
      have reached : started = s.notified.length := by
        have short := List.getElem?_eq_none_iff.mp next
        have inside := queue.inside
        omega
      exact of_pure ⟨own, reached ▸ queue⟩
    | some entry =>
      apply (yields_execOne queue next).seq
      rintro _ t ⟨later, going⟩
      exact ih going (by omega)

end Receivers

theorem yields_execReceivers (fresh : s = newContext action s)
    (points : s.Points ordinal action receiver) :
    Yields s (execReceivers w receiver ordinal) fun _ t =>
      ∃ own, Queue s action receiver t.notified.length own t := by
  have notified : s.notified = [] := by rw [fresh]; rfl
  have first : Queue s action receiver 0 []
      { s with notified := s.notified ++ [(receiver, ordinal)] } := by
    constructor
    case log => exact (List.append_nil _).symm
    case grown => exact refl_of Grown s
    case running => rw [fresh]; rfl
    case queued => rw [notified]; rfl
    case distinct => rw [notified]; exact List.nodup_singleton _
    case points =>
      intro entry member
      rw [notified] at member
      rw [List.mem_singleton.mp member]
      exact points
    case inside => exact Nat.zero_le _
    case ran => rfl
    case same => simp
    case contextFree => rw [fresh]; exact .nil
    case others => rw [fresh]; exact .nil
  have next : ({ s with notified := s.notified ++ [(receiver, ordinal)] } : ExecState).notified[0]? =
      some (receiver, ordinal) := by
    rw [notified]
    rfl
  refine ok_bind rfl ?_
  apply (yields_execOne first next).seq
  rintro _ t ⟨own, queue⟩
  exact yields_execNotified queue (2 ^ 64) (by omega)

/-! Actions. -/

/-- What is known of the execution of a trace: it leaves the events of its action. -/
def Orderly (nested : Nat → ExecCall Unit) : Prop :=
  ∀ s ordinal action receiver, s.Points ordinal action receiver →
    Yields s (nested ordinal) fun _ t =>
      s.Grown t ∧ ∃ events, t.log = s.log ++ events ∧ Runs action receiver events

theorem yields_nested {nested : Nat → ExecCall Unit} (orderly : Orderly nested)
    {ordinals : List Nat} {actions : List Action}
    (points : List.Forall₂ (fun ordinal a => s.Points ordinal a a.account) ordinals actions) :
    Yields s (ordinals.forM nested) fun _ t => s.Grown t ∧ ∃ parts : List (List Event),
      t.log = s.log ++ parts.flatten ∧
        List.Forall₂ (fun a events => Runs a a.account events) actions parts := by
  induction ordinals generalizing s actions with
  | nil =>
    cases points
    exact of_pure ⟨refl_of Grown s, [], (List.append_nil _).symm, .nil⟩
  | cons ordinal rest ih =>
    cases points with
    | @cons _ action _ others here later =>
      rw [forM_cons]
      apply (orderly s ordinal action action.account here).seq
      rintro _ t ⟨grown, events, first, runs⟩
      apply (ih (later.imp fun _ _ => Points.grown grown)).imp
      rintro _ u ⟨more, parts, last, all⟩
      refine ⟨trans_of Grown grown more, events :: parts, ?_, .cons runs all⟩
      rw [last, first, List.append_assoc, List.flatten_cons]

theorem yields_exec {nested : Nat → ExecCall Unit} (orderly : Orderly nested)
    (fresh : s = newContext action s) (points : s.Points ordinal action receiver) (depth : Nat) :
    Yields s (exec w nested receiver ordinal depth) fun _ t =>
      s.Grown t ∧ ∃ events, t.log = s.log ++ events ∧ Runs action receiver events := by
  apply (yields_execReceivers fresh points).seq
  rintro _ t ⟨own, queue⟩
  have ran := queue.ran
  rw [List.take_length, queue.queued] at ran
  apply Yields.read_bind
  apply Yields.read_bind
  apply (leads_checkDepth (R := Eq) w depth _ t).seq
  rintro _ t rfl
  apply (yields_nested orderly queue.contextFree).seq
  rintro _ u ⟨grown, free, first, freeRuns⟩
  apply (yields_nested orderly (queue.others.imp fun _ _ => Points.grown grown)).imp
  rintro _ v ⟨more, others, last, otherRuns⟩
  refine ⟨trans_of Grown queue.grown (trans_of Grown grown more),
    own ++ free.flatten ++ others.flatten, ?_, .intro queue.same ran freeRuns otherRuns⟩
  rw [last, first, queue.log]
  simp only [List.append_assoc]

theorem orderly_executeAction (w : World) (fuel depth : Nat) :
    Orderly fun ordinal => executeActionWith w fuel ordinal depth := by
  induction fuel generalizing depth with
  | zero => exact fun _ _ _ _ _ => of_throw _
  | succ fuel ih =>
    intro s ordinal action receiver points
    apply Yields.read_bind
    apply run_bind rfl
    intro _ _
    apply (yields_getActionTrace points).seq
    rintro trace s ⟨rfl, rfl, rfl⟩
    have entered : (newContext trace.act s).Points ordinal trace.act trace.receiver := points
    refine ok_bind rfl ?_
    exact yields_exec (ih (depth + 1)) rfl entered depth

/-! Depth. -/

theorem checkDepth_deep {depth : Nat} (deep : 2 ^ 16 ≤ depth + 1) (s : ExecState) :
    ∃ e, checkDepth w depth true s = (.error e, s) := by
  unfold checkDepth
  rw [if_pos rfl, read_bind]
  cases w.maxInlineActionDepth s with
  | error e => exact ⟨e, rfl⟩
  | ok most =>
    have small := most.toNat_lt
    have refused : ¬ (decide (depth < most.toNat) = true) := by
      rw [decide_eq_true_eq]
      omega
    refine ⟨.transactionError "max inline action depth per transaction reached", ?_⟩
    rw [bind_ok (rfl : lift (.ok most) s = (.ok most, s))]
    unfold pulseAssert
    rw [if_neg refused]
    rfl

theorem exec_deep {depth : Nat} (deep : 2 ^ 16 ≤ depth + 1) (nested other : Nat → ExecCall Unit)
    (receiver : UInt64) (ordinal : Nat) :
    exec w nested receiver ordinal depth = exec w other receiver ordinal depth := by
  unfold exec
  congr 1
  funext _ s
  rw [read_bind, read_bind, read_bind, read_bind]
  cases inline : s.inlineActions with
  | nil =>
    cases free : s.contextFreeInlineActions with
    | nil => rfl
    | cons first rest =>
      obtain ⟨e, refused⟩ := checkDepth_deep (w := w) deep s
      exact (bind_error refused _).trans (bind_error refused _).symm
  | cons first rest =>
    obtain ⟨e, refused⟩ := checkDepth_deep (w := w) deep s
    exact (bind_error refused _).trans (bind_error refused _).symm

theorem executeActionWith_fuel {fuel depth : Nat} (enough : 2 ^ 16 ≤ fuel + 1 + depth)
    (ordinal : Nat) :
    executeActionWith w (fuel + 2) ordinal depth = executeActionWith w (fuel + 1) ordinal depth := by
  induction fuel generalizing ordinal depth with
  | zero =>
    have deep : 2 ^ 16 ≤ depth + 1 := by omega
    have same (trace : ActionTrace) :
        exec w (fun nested => executeActionWith w (0 + 1) nested (depth + 1)) trace.receiver
          ordinal depth =
        exec w (fun nested => executeActionWith w 0 nested (depth + 1)) trace.receiver
          ordinal depth := exec_deep deep _ _ _ _
    rw [executeActionWith, executeActionWith]
    simp only [same]
  | succ fuel ih =>
    have inner : (fun nested => executeActionWith w (fuel + 2) nested (depth + 1)) =
        fun nested => executeActionWith w (fuel + 1) nested (depth + 1) :=
      funext fun nested => ih (by omega) nested
    rw [executeActionWith, executeActionWith, inner]

/-- Whatever the contracts do, calls nest no deeper than the depth counter goes. -/
theorem executeAction_bounded (extra ordinal depth : Nat) :
    executeActionWith w (2 ^ 16 + extra) ordinal depth = executeAction w ordinal depth := by
  induction extra with
  | zero => rfl
  | succ extra ih =>
    obtain ⟨fuel, large⟩ : ∃ fuel, 2 ^ 16 + extra = fuel + 1 := ⟨65535 + extra, by omega⟩
    rw [← ih, ← Nat.add_assoc, large]
    exact executeActionWith_fuel (by omega) ordinal

/-- Whatever the contracts do, an action that goes through runs its receiver, then every
account that was asked for, each once in the order of the first request, then the context
free actions and then the other actions that they have sent, in the order of sending, each
with all that it brings about before the next. -/
theorem executeAction_runs (w : World) {s t : ExecState} {ordinal depth : Nat} {action : Action}
    {receiver : UInt64} (points : s.Points ordinal action receiver)
    (done : executeAction w ordinal depth s = (.ok (), t)) :
    ∃ events, t.log = s.log ++ events ∧ Runs action receiver events :=
  ((orderly_executeAction w (2 ^ 16) depth s ordinal action receiver points).post () t done).2

/-- Account `5` notifies `6` and `7` and sends an action to `9`; `6` notifies `7`, itself and
`8` and sends a context free action to `10`; `9` sends an action to `11`. -/
def busyCalls (receiver : UInt64) : List HostCall :=
  match receiver.toNat with
  | 5 => [.requireRecipient 6, .executeInline ⟨9, 1, []⟩ (.ok ()), .requireRecipient 7]
  | 6 => [.requireRecipient 7, .requireRecipient 6, .executeContextFreeInline ⟨10, 1, []⟩,
      .requireRecipient 8]
  | 9 => [.executeInline ⟨11, 1, []⟩ (.ok ())]
  | _ => []

def busyWorld : World where
  activated _ := true
  execution _ receiver _ := {
    metadata := .ok false
    calls := (busyCalls receiver).map fun call => (lenientEnv, call)
    ended := .ok ()
    receipt := .ok ⟨0, Vector.replicate 32 0, 0, 0, [], 0, 0⟩ }
  checktime _ := .ok ()
  maxInlineActionDepth _ := .ok 4

/-- An action of account `5` that waits for its execution. -/
def busyStart : ExecState := (scheduleAll false [⟨5, 1, []⟩] emptyRun).2

theorem executeAction_runs_busy :
    ∃ t, executeAction busyWorld 1 0 busyStart = (.ok (), t) ∧
      begun t.log = [5, 6, 7, 8, 10, 9, 11] ∧
      ∃ events, t.log = [] ++ events ∧ Runs ⟨5, 1, []⟩ 5 events := by
  have accepted : (executeAction busyWorld 1 0 busyStart).1 = .ok () ∧
      begun (executeAction busyWorld 1 0 busyStart).2.log = [5, 6, 7, 8, 10, 9, 11] := by
    decide +kernel
  have points : busyStart.Points 1 ⟨5, 1, []⟩ 5 := rfl
  rcases done : executeAction busyWorld 1 0 busyStart with ⟨verdict, t⟩
  rw [done] at accepted
  obtain ⟨rfl, order⟩ := accepted
  exact ⟨t, rfl, order, executeAction_runs busyWorld points done⟩

end ExecCall

end PulseVM.Chain
