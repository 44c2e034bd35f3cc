import PulseVM.Controller.Mempool
import PulseVM.Lib.Codec

/-!
The block stream of a state history session: where a `get_blocks` request starts, what
a response holds, and which blocks the streaming task sends.
-/

namespace PulseVM.Ship
open Lib.Encoding Lib.Codec Controller
open List

structure BlockPosition where
  blockNum : Nat
  blockId : Id

structure GetBlocksRequestV0 where
  startBlockNum : Nat
  endBlockNum : Nat
  maxMessagesInFlight : Nat
  havePositions : List BlockPosition
  fetchBlock : Bool
  fetchTraces : Bool
  fetchDeltas : Bool

structure GetBlocksResponseV0 where
  head : BlockPosition
  lastIrreversible : BlockPosition
  thisBlock : Option BlockPosition
  prevBlock : Option BlockPosition
  block : Option Bytes
  traces : Option Bytes
  deltas : Option Bytes

inductive SessionError where
  | chain (text : String)
  | notYetAvailable (blockNum : Nat)
  | notFound (blockNum : Nat)
  | noBlock (blockNum : Nat) (blockId : Id)

/-- What a session reads of a log; a read that fails is `none`. A block has the number after
that of the block before it, so there is none with number 0. -/
structure Log where
  lastBlock : Nat
  getBlockId : Nat → Option Id
  readBlock : Nat → Option Bytes
  numbered : getBlockId 0 = none

/-- What a session reads of the controller. Decoding and packing are left open. -/
structure View where
  headNum : Nat
  headId : Except SessionError Id
  blockLog : Option Log
  traceLog : Option Log
  chainStateLog : Option Log
  getBlockByHeight : Nat → Except SessionError (Option Bytes)
  convertTraces : Bytes → Except SessionError Bytes
  pack : GetBlocksResponseV0 → Except SessionError Bytes

variable (c : View) (request : GetBlocksRequestV0)

namespace View

/-- A block in none of the logs is an error, never `none`. -/
def getBlockId (blockNum : Nat) : Except SessionError (Option Id) :=
  match c.blockLog with
  | none => .error (.chain "block log not initialized")
  | some blocks =>
    match (c.traceLog.bind (·.getBlockId blockNum)).orElse fun _ =>
        (c.chainStateLog.bind (·.getBlockId blockNum)).orElse fun _ => blocks.getBlockId blockNum with
    | some id => .ok (some id)
    | none => .error (.chain "failed to get block id from logs")

def idAt (blockNum : Nat) : Option Id := (c.getBlockId blockNum).toOption.join

theorem getBlockId_cases (blockNum : Nat) :
    (∃ id, c.idAt blockNum = some id ∧ c.getBlockId blockNum = .ok (some id)) ∨
      (c.idAt blockNum = none ∧ ∃ e, c.getBlockId blockNum = .error e) := by
  unfold idAt getBlockId
  split
  · exact .inr ⟨rfl, _, rfl⟩
  · split
    · exact .inl ⟨_, rfl, rfl⟩
    · exact .inr ⟨rfl, _, rfl⟩

theorem idAt_zero : c.idAt 0 = none := by
  have unnumbered (log : Option Log) : log.bind (·.getBlockId 0) = none := by
    cases log with
    | none => rfl
    | some log => exact log.numbered
  unfold idAt getBlockId
  rw [unnumbered, unnumbered]
  split
  · rfl
  · next blocks _ =>
    rw [blocks.numbered]
    rfl

theorem getBlockId_ok {c : View} {blockNum : Nat} {found : Option Id}
    (read : c.getBlockId blockNum = .ok found) : ∃ id, c.idAt blockNum = some id ∧ found = some id := by
  rcases c.getBlockId_cases blockNum with ⟨id, known, same⟩ | ⟨_, e, failed⟩
  · cases read.symm.trans same
    exact ⟨id, known, rfl⟩
  · cases read.symm.trans failed

def previousBlock (blockNum : Nat) : Except SessionError (Option BlockPosition) :=
  if blockNum > 1 then do
    let found ← c.getBlockId (blockNum - 1)
    return found.map (⟨blockNum - 1, ·⟩)
  else return none

def fetchedBlock (blockNum : Nat) (thisBlockId : Id) : Except SessionError (Option Bytes) :=
  if request.fetchBlock then do
    let some packed ← c.getBlockByHeight blockNum | throw (.noBlock blockNum thisBlockId)
    return some packed
  else return none

def fetchedTraces (blockNum : Nat) : Except SessionError (Option Bytes) :=
  match request.fetchTraces, c.traceLog.bind (·.readBlock blockNum) with
  | true, some packed => (c.convertTraces packed).map some
  | _, _ => return none

def makeBlockResponseFor (blockNum : Nat) : Except SessionError GetBlocksResponseV0 :=
  let serveable := (c.blockLog.map Log.lastBlock).getD 0
  if serveable < blockNum then throw (.notYetAvailable blockNum) else do
    let headBlockId ← c.headId
    let some thisBlockId ← c.getBlockId blockNum | throw (.notFound blockNum)
    let prevBlock ← c.previousBlock blockNum
    let block ← c.fetchedBlock request blockNum thisBlockId
    let traces ← c.fetchedTraces request blockNum
    let serveableHeadId ← c.getBlockId serveable
    return {
      head := ⟨serveable, serveableHeadId.getD headBlockId⟩
      lastIrreversible := ⟨c.headNum, headBlockId⟩
      thisBlock := some ⟨blockNum, thisBlockId⟩
      prevBlock
      block
      traces
      deltas := if request.fetchDeltas then c.chainStateLog.bind (·.readBlock blockNum) else none }

/-- The response that goes out. Failing to make it and failing to pack it are handled alike. -/
def answer (blockNum : Nat) : Except SessionError GetBlocksResponseV0 := do
  let response ← c.makeBlockResponseFor request blockNum
  let _ ← c.pack response
  return response

def served (blockNum : Nat) : Bool := (c.answer request blockNum).isOk

/-- A response names its own and its previous block as they are in the node's chain. -/
def Answers (blockNum : Nat) (response : GetBlocksResponseV0) : Prop :=
  (∃ id, c.idAt blockNum = some id ∧ response.thisBlock = some ⟨blockNum, id⟩) ∧
    if blockNum > 1 then
      ∃ id, c.idAt (blockNum - 1) = some id ∧ response.prevBlock = some ⟨blockNum - 1, id⟩
    else response.prevBlock = none

variable {c request}

theorem answer_answers {blockNum : Nat} {response : GetBlocksResponseV0}
    (sent : c.answer request blockNum = .ok response) : c.Answers blockNum response := by
  obtain ⟨_, made, packed⟩ := bind_eq_ok.mp sent
  obtain ⟨_, _, same⟩ := bind_eq_ok.mp packed
  cases same
  unfold makeBlockResponseFor at made
  by_cases ahead : (c.blockLog.map Log.lastBlock).getD 0 < blockNum
  · rw [if_pos ahead] at made
    cases made
  · rw [if_neg ahead] at made
    obtain ⟨_, _, made⟩ := bind_eq_ok.mp made
    obtain ⟨_, this, made⟩ := bind_eq_ok.mp made
    obtain ⟨id, known, rfl⟩ := getBlockId_ok this
    obtain ⟨prevBlock, previous, made⟩ := bind_eq_ok.mp made
    obtain ⟨_, _, made⟩ := bind_eq_ok.mp made
    obtain ⟨_, _, made⟩ := bind_eq_ok.mp made
    obtain ⟨_, _, made⟩ := bind_eq_ok.mp made
    cases made
    refine ⟨⟨id, known, rfl⟩, ?_⟩
    unfold previousBlock at previous
    by_cases later : blockNum > 1
    · rw [if_pos later] at previous ⊢
      obtain ⟨_, before, same⟩ := bind_eq_ok.mp previous
      obtain ⟨id, known, rfl⟩ := getBlockId_ok before
      cases same
      exact ⟨id, known, rfl⟩
    · rw [if_neg later] at previous ⊢
      cases previous
      rfl

variable (c request)

/-- One turn of the loop over the positions that the client has. -/
def checkPosition (bounds : Nat × Nat) (cp : BlockPosition) : Except SessionError (Nat × Nat) :=
  if bounds.1 ≤ cp.blockNum then return bounds else do
    match ← c.getBlockId cp.blockNum with
    | some blockId =>
      if blockId ≠ cp.blockId then return (min bounds.1 cp.blockNum, min bounds.2 cp.blockNum)
      else return bounds
    | none => return (min bounds.1 cp.blockNum, min bounds.2 cp.blockNum)

/-- The request with its start, and the first block to send. -/
def updateCurrentRequest : Except SessionError (GetBlocksRequestV0 × Nat) := do
  let bounds ← request.havePositions.foldlM c.checkPosition
    (request.startBlockNum, max request.startBlockNum 1)
  return ({ request with startBlockNum := bounds.1 }, bounds.2)

/-- The least of a start and the positions whose id is another one in the node's chain, or
is missing there. -/
def lowest (start : Nat) (positions : List BlockPosition) : Nat :=
  positions.foldl (fun low cp => if c.idAt cp.blockNum = some cp.blockId then low
    else min low cp.blockNum) start

/-- Every position is in the node's chain, unless the ones before it in the list have moved
the start to it or below it. -/
def Resolved (start : Nat) (positions : List BlockPosition) : Prop :=
  ∀ before cp after, positions = before ++ cp :: after → c.idAt cp.blockNum = none →
    c.lowest start before ≤ cp.blockNum

variable {c} {start toSend : Nat} {cp : BlockPosition} {positions : List BlockPosition}

theorem lowest_le : c.lowest start positions ≤ start := by
  induction positions generalizing start with
  | nil => exact Nat.le_refl _
  | cons cp positions ih =>
    apply ih.trans
    dsimp only
    split
    · exact Nat.le_refl _
    · exact Nat.min_le_left _ _

theorem resolved_cons : c.Resolved start (cp :: positions) ↔
    (c.idAt cp.blockNum = none → start ≤ cp.blockNum) ∧
      c.Resolved (c.lowest start [cp]) positions := by
  constructor
  · intro resolved
    refine ⟨fun missing => resolved [] cp positions rfl missing, ?_⟩
    rintro before p after rfl missing
    exact resolved (cp :: before) p after rfl missing
  · rintro ⟨first, rest⟩ before p after split missing
    cases before with
    | nil =>
      cases split
      exact first missing
    | cons q before =>
      cases split
      exact rest before p after rfl missing

theorem Resolved.eq_zero (resolved : c.Resolved start positions) (zero : c.lowest start positions = 0) :
    start = 0 := by
  induction positions generalizing start with
  | nil => exact zero
  | cons cp positions ih =>
    obtain ⟨known, rest⟩ := resolved_cons.mp resolved
    have one : (if c.idAt cp.blockNum = some cp.blockId then start else min start cp.blockNum) = 0 :=
      ih rest zero
    split at one
    · exact one
    · rcases Nat.min_eq_zero_iff.mp one with done | first
      · exact done
      · rw [first] at known
        exact Nat.le_zero.mp (known c.idAt_zero)

theorem checkPosition_cases (c : View) (cp : BlockPosition) (above : start ≤ toSend) :
    ((c.idAt cp.blockNum = none → start ≤ cp.blockNum) ∧ c.checkPosition (start, toSend) cp =
      .ok (c.lowest start [cp], if c.lowest start [cp] < start then c.lowest start [cp] else toSend)) ∨
    (¬(c.idAt cp.blockNum = none → start ≤ cp.blockNum) ∧
      ∃ e, c.checkPosition (start, toSend) cp = .error e) := by
  have one : c.lowest start [cp] =
    if c.idAt cp.blockNum = some cp.blockId then start else min start cp.blockNum := rfl
  unfold checkPosition
  by_cases less : cp.blockNum < start
  · rw [if_neg (not_le.mpr less)]
    rcases c.getBlockId_cases cp.blockNum with ⟨id, known, same⟩ | ⟨missing, e, failed⟩
    · rw [known] at one
      rw [same, known]
      refine .inl ⟨(by cases ·), ?_⟩
      by_cases other : id = cp.blockId
      · rw [if_pos (congrArg some other)] at one
        rw [one, if_neg (Nat.lt_irrefl _)]
        exact if_neg (not_not.mpr other)
      · rw [if_neg (fun same => other (Option.some.inj same)), min_eq_right less.le] at one
        rw [one, if_pos less]
        refine (if_pos other).trans ?_
        rw [min_eq_right less.le, min_eq_right (less.le.trans above)]
        rfl
    · exact .inr ⟨fun known => absurd less (not_lt.mpr (known missing)), e, by rw [failed]; rfl⟩
  · rw [min_eq_left (not_lt.mp less), ite_self] at one
    rw [if_pos (not_lt.mp less), one, if_neg (Nat.lt_irrefl _)]
    exact .inl ⟨fun _ => not_lt.mp less, rfl⟩

/-- The loop over all positions, by induction over the list from any pair of bounds. -/
theorem checkPositions_cases (c : View) (positions : List BlockPosition) (above : start ≤ toSend) :
    (c.Resolved start positions ∧ positions.foldlM c.checkPosition (start, toSend) =
      .ok (c.lowest start positions,
        if c.lowest start positions < start then c.lowest start positions else toSend)) ∨
    (¬c.Resolved start positions ∧
      ∃ e, positions.foldlM c.checkPosition (start, toSend) = .error e) := by
  induction positions generalizing start toSend with
  | nil =>
    refine .inl ⟨fun before cp after split => by simp at split, ?_⟩
    rw [show c.lowest start [] = start from rfl, if_neg (Nat.lt_irrefl _)]
    rfl
  | cons cp positions ih =>
    rw [foldlM_cons, resolved_cons]
    rcases c.checkPosition_cases cp above with ⟨known, same⟩ | ⟨missing, e, failed⟩
    · have first : c.lowest start [cp] ≤ start := lowest_le
      have rest : c.lowest (c.lowest start [cp]) positions ≤ c.lowest start [cp] := lowest_le
      have both : c.lowest start (cp :: positions) = c.lowest (c.lowest start [cp]) positions := rfl
      rw [same]
      have still : c.lowest start [cp] ≤
          if c.lowest start [cp] < start then c.lowest start [cp] else toSend := by
        split <;> omega
      rcases ih still with ⟨resolved, done⟩ | ⟨unresolved, e, failed⟩
      · refine .inl ⟨⟨known, resolved⟩, done.trans ?_⟩
        rw [← both] at rest ⊢
        congr 2
        split_ifs <;> omega
      · exact .inr ⟨fun both => unresolved both.2, e, failed⟩
    · rw [failed]
      exact .inr ⟨fun both => missing both.1, e, rfl⟩

end View

/-- Where the task is in its loop. A task whose send failed has ended with its slot. -/
inductive Point where
  | acquiring
  | loaded (current : { n : Int // 0 < n })
  | holding
  | finished
  | cut

/-- A streaming task with the responses it has sent. -/
structure Stream where
  request : GetBlocksRequestV0
  next : Nat
  sent : List GetBlocksResponseV0
  point : Point

/-- The loop's body once a slot is taken; the flag says that it gives the slot back. -/
def Stream.respond (delivered : Bool) (s : Stream) : Stream × Bool :=
  match c.answer s.request s.next with
  | .error _ => ({ s with point := .acquiring }, true)
  | .ok response =>
    if delivered then
      let next := min (s.next + 1) (2 ^ 32 - 1)
      let ends := 0 < s.request.endBlockNum ∧ next > s.request.endBlockNum
      (⟨s.request, next, s.sent ++ [response], if ends then .finished else .acquiring⟩, false)
    else ({ s with point := .cut }, false)

/-- One more pass of the loop on a node that stays as it is, with a slot and an open writer. -/
def Stream.pass (s : Stream) : Stream :=
  match s.point with
  | .finished => s
  | _ => (s.respond c true).1

namespace View

/-- The responses after so many passes of a stream that starts at `start`. -/
def streamed (start passes : Nat) : List GetBlocksResponseV0 :=
  ((Stream.pass c)^[passes] ⟨request, start, [], .acquiring⟩).sent

/-- So many blocks from `start` on, as far as the node can serve them. -/
def servedFrom (start count : Nat) : List Nat := (List.range' start count).takeWhile (c.served request)

variable {c request} {start : Nat}

/-- The stream goes on up to the end of the request and including it. At the last block
number there is it does not stop, so the passes are counted or a block is missing. -/
theorem pass_iterate (small : request.endBlockNum < 2 ^ 32) (start passes : Nat)
    (sent : List GetBlocksResponseV0)
    (stops : passes ≤ request.endBlockNum - start + 1 ∨
      ∃ n, start ≤ n ∧ n ≤ max start request.endBlockNum ∧ c.served request n = false) :
    ∃ more, ((Stream.pass c)^[passes] ⟨request, start, sent, .acquiring⟩).sent = sent ++ more ∧
      List.Forall₂ c.Answers
        ((c.servedFrom request start (request.endBlockNum - start + 1)).take passes) more := by
  induction passes generalizing start sent with
  | zero => exact ⟨[], (append_nil _).symm, .nil⟩
  | succ passes ih =>
    rw [Function.iterate_succ_apply, servedFrom, List.range'_succ]
    cases outcome : c.answer request start with
    | error e =>
      have unserved : c.served request start = false := congrArg Except.isOk outcome
      have waits : Stream.pass c ⟨request, start, sent, .acquiring⟩ = ⟨request, start, sent, .acquiring⟩ := by
        simp [Stream.pass, Stream.respond, outcome]
      rw [waits, Function.iterate_fixed waits, takeWhile_cons_of_neg (by rw [unserved]; decide)]
      exact ⟨[], (append_nil _).symm, .nil⟩
    | ok response =>
      have served : c.served request start = true := congrArg Except.isOk outcome
      have first := answer_answers outcome
      rw [takeWhile_cons_of_pos served, take_succ_cons]
      by_cases last : request.endBlockNum ≤ start
      · have once : passes = 0 := by
          rcases stops with few | ⟨n, low, high, unserved⟩
          · omega
          · rw [show n = start by omega, served] at unserved
            cases unserved
        rw [once]
        refine ⟨[response], ?_, .cons first .nil⟩
        simp [Stream.pass, Stream.respond, outcome]
      · have goes : Stream.pass c ⟨request, start, sent, .acquiring⟩ =
            ⟨request, start + 1, sent ++ [response], .acquiring⟩ := by
          have next : min (start + 1) (2 ^ 32 - 1) = start + 1 := by omega
          simp [Stream.pass, Stream.respond, outcome]
          omega
        obtain ⟨more, all, answered⟩ := ih (start + 1) (sent ++ [response]) (by
          rcases stops with few | ⟨n, low, high, unserved⟩
          · exact .inl (by omega)
          · have apart : n ≠ start := by
              rintro rfl
              cases served.symm.trans unserved
            exact .inr ⟨n, by omega, by omega, unserved⟩)
        rw [goes, all, append_assoc]
        have length : request.endBlockNum - start = request.endBlockNum - (start + 1) + 1 := by omega
        rw [length]
        exact ⟨response :: more, rfl, .cons first answered⟩

/-- The stream of a request as the protocol has it: block by block up to the end of the
request and without it, from the least of its start and the positions below that are not
in the node's chain. -/
def StreamsRange (c : View) (request : GetBlocksRequestV0) : Prop :=
  let first := max 1 (c.lowest request.startBlockNum request.havePositions)
  ∃ updated toSend, c.updateCurrentRequest request = .ok (updated, toSend) ∧
    ∀ passes, List.Forall₂ c.Answers
      ((c.servedFrom request first (request.endBlockNum - first)).take passes)
      (c.streamed updated toSend passes)

/-- From the right start the stream is right exactly if it has to wait, at the end of the
range or before it. -/
theorem follows_iff (request : GetBlocksRequestV0) (small : request.endBlockNum < 2 ^ 32) :
    (∀ passes, List.Forall₂ c.Answers
      ((c.servedFrom request start (request.endBlockNum - start)).take passes)
      (c.streamed request start passes)) ↔
    ∃ n, start ≤ n ∧ n ≤ max start request.endBlockNum ∧ c.served request n = false := by
  constructor
  · intro follows
    by_contra served
    have all : c.servedFrom request start (request.endBlockNum - start + 1) =
        List.range' start (request.endBlockNum - start + 1) := by
      refine takeWhile_eq_self_iff.mpr fun n member => ?_
      by_contra unserved
      obtain ⟨low, high⟩ := mem_range'_1.mp member
      exact served ⟨n, low, by omega, Bool.eq_false_iff.mpr unserved⟩
    obtain ⟨more, same, answered⟩ := pass_iterate (c := c) small start _ []
      (.inl (Nat.le_refl _))
    have sent := (follows (request.endBlockNum - start + 1)).length_eq
    have short := (takeWhile_sublist (c.served request)
      (l := List.range' start (request.endBlockNum - start))).length_le
    rw [streamed, same, nil_append, ← answered.length_eq, all, take_range'_of_length_ge
      (Nat.le_refl _), length_range', length_take, servedFrom] at sent
    rw [length_range'] at short
    omega
  · rintro ⟨n, low, high, unserved⟩ passes
    obtain ⟨more, sent, answered⟩ := pass_iterate small start passes []
      (.inr ⟨n, low, high, unserved⟩)
    rw [streamed, sent]
    rw [servedFrom, List.range'_concat, takeWhile_append, Nat.one_mul] at answered
    split at answered
    · next whole =>
      have all := takeWhile_eq_self_iff.mp ((takeWhile_sublist _).eq_of_length whole)
      have last : n = start + (request.endBlockNum - start) := by
        by_contra other
        cases (all n (mem_range'_1.mpr ⟨low, by omega⟩)).symm.trans unserved
      rw [← last, takeWhile_cons_of_neg (by rw [unserved]; decide), append_nil] at answered
      rw [servedFrom, takeWhile_eq_self_iff.mpr all]
      exact answered
    · exact answered

theorem streamsRange_iff (c : View) (request : GetBlocksRequestV0)
    (small : request.endBlockNum < 2 ^ 32) : c.StreamsRange request ↔
      c.Resolved request.startBlockNum request.havePositions ∧
        let first := max 1 (c.lowest request.startBlockNum request.havePositions)
        ∃ n, first ≤ n ∧ n ≤ max first request.endBlockNum ∧ c.served request n = false := by
  unfold StreamsRange updateCurrentRequest
  rcases c.checkPositions_cases request.havePositions
      (le_max_left request.startBlockNum 1) with ⟨resolved, done⟩ | ⟨unresolved, e, failed⟩
  · have below : c.lowest request.startBlockNum request.havePositions ≤ request.startBlockNum := lowest_le
    have zero := resolved.eq_zero
    rw [done, iff_true_intro resolved, true_and]
    generalize c.lowest request.startBlockNum request.havePositions = low at below zero
    have first : (if low < request.startBlockNum then low else max request.startBlockNum 1) =
        max 1 low := by split <;> omega
    rw [first]
    refine Iff.trans ?_ (follows_iff { request with startBlockNum := low } small)
    constructor
    · rintro ⟨_, _, updated, follows⟩
      cases updated
      exact follows
    · exact fun follows => ⟨_, _, rfl, follows⟩
  · rw [failed]
    constructor
    · rintro ⟨_, _, updated, _⟩
      cases updated
    · exact fun both => absurd both.1 unresolved

def small : View where
  headNum := 3
  headId := .ok (Vector.replicate 32 3)
  blockLog := some ⟨3, fun n => if n = 0 ∨ 3 < n then none else some (Vector.replicate 32 3),
    fun _ => none, rfl⟩
  traceLog := none
  chainStateLog := none
  getBlockByHeight _ := .ok none
  convertTraces := .ok
  pack _ := .ok []

def blocksRequest (start stop : Nat) (positions : List BlockPosition) : GetBlocksRequestV0 :=
  ⟨start, stop, 0, positions, false, false, false⟩

/-- The client has another block at 2, so the stream starts there. -/
theorem streamsRange_small :
    small.StreamsRange (blocksRequest 3 5 [⟨2, Vector.replicate 32 0⟩]) := by
  refine (streamsRange_iff _ _ (by decide)).mpr ⟨?_, 4, by decide, by decide, rfl⟩
  intro before cp after split absent
  have there : cp ∈ [(⟨2, Vector.replicate 32 0⟩ : BlockPosition)] := by
    rw [show [(⟨2, Vector.replicate 32 0⟩ : BlockPosition)] = _ from split]
    simp
  cases mem_singleton.mp there
  cases absent

/-- The end block is sent as well, and a position that the node does not have ends the
session. -/
theorem not_streamsRange : ¬small.StreamsRange (blocksRequest 1 2 []) ∧
    ¬small.StreamsRange (blocksRequest 6 8 [⟨5, Vector.replicate 32 0⟩]) := by
  constructor
  · rintro ⟨_, _, updated, follows⟩
    cases updated
    exact absurd (follows 2).length_eq (by decide)
  · rintro ⟨_, _, updated, _⟩
    cases updated

end View

end PulseVM.Ship
