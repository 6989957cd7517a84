import DhcpServer.Library.Numerals
import DhcpServer.Library.Run
import Mathlib.Algebra.BigOperators.Group.List.Basic

/-!
# The error log and what it loses

`ErrorLogCore` between the tasks that submit messages and the task that drains them into a target. A
drain is taken apart at the calls of the target, because messages are submitted while one is under way,
by other tasks and by the target itself. The number of losses that notices have admitted and the counter
are compared with the losses there were.
-/

namespace DhcpServer.Core.ErrorLog

open Library

inductive LogLevel
  | error
  | warn
  | info

structure ErrorLogEntry where
  level : LogLevel
  text : Bytes

/-- `makeLine` at a moment: the line of a level, a tag and a message. -/
abbrev LineFormatter := LogLevel → Bytes → Bytes → Bytes

inductive Phase
  /-- outside of `drain` -/
  | idle
  /-- at the head of the loop, with a message popped -/
  | popped (entry : ErrorLogEntry)
  /-- a notice of so many losses is with the target -/
  | noticing (entry note : ErrorLogEntry) (count : UInt32)
  /-- the message is with the target -/
  | writing (entry : ErrorLogEntry)
  /-- at the end of the loop -/
  | settled

inductive Record
  | notice (count : UInt32) (note : ErrorLogEntry)
  | message (entry : ErrorLogEntry)

/-- The members of the core and its queue, where the log task is, and what has happened. -/
structure State where
  queue : List ErrorLogEntry
  dropped : UInt32
  dropNoticePending : Bool
  phase : Phase
  /-- what the drain under way, or the last one, returns -/
  written : UInt32
  log : List Record
  /-- the messages that fitted into the queue -/
  accepted : List ErrorLogEntry
  /-- the messages the target has answered, and its answers -/
  answered : List (ErrorLogEntry × Bool)
  /-- the submitted messages that were lost -/
  lost : Nat

def State.start : State where
  queue := []
  dropped := 0
  dropNoticePending := false
  phase := .idle
  written := 0
  log := []
  accepted := []
  answered := []
  lost := 0

/-- `++dropped_` -/
def State.count (state : State) : State := { state with dropped := state.dropped + 1 }

/-- A message that does not fit is counted, and the next line written reports it. -/
def submitLine (capacity : Nat) (state : State) (level : LogLevel) (formattedLine : Bytes) : State :=
  let entry := ⟨level, formattedLine⟩
  if state.queue.length < capacity then
    { state with queue := state.queue ++ [entry], accepted := state.accepted ++ [entry] }
  else { state.count with dropNoticePending := true, lost := state.lost + 1 }

def submit (capacity : Nat) (makeLine : LineFormatter) (state : State) (level : LogLevel)
    (tag message : Bytes) : State :=
  submitLine capacity state level (makeLine level tag message)

/-- `pop` into the head of the loop, or the end of the drain. -/
def pop (state : State) : State :=
  match state.queue with
  | [] => { state with phase := .idle }
  | entry :: queue => { state with queue, phase := .popped entry }

def noticeText (count : UInt32) : Bytes :=
  numeral 10 count.toNat ++ ascii " message(s) lost (queue full or the target refused them)"

/-- The head of the loop: the notice is made of what the counter says now. -/
def look (makeLine : LineFormatter) (state : State) (entry : ErrorLogEntry) : State :=
  if state.dropNoticePending ∧ 0 < state.dropped then
    let note := ⟨.warn, makeLine .warn (ascii "log") (noticeText state.dropped)⟩
    { state with phase := .noticing entry note state.dropped }
  else { state with phase := .writing entry }

def noticeAnswered (state : State) (entry note : ErrorLogEntry) (count : UInt32) (takes : Bool) : State :=
  if takes then
    { state with
      dropNoticePending := false
      dropped := 0
      written := state.written + 1
      log := state.log ++ [.notice count note]
      phase := .writing entry }
  else { state.count with phase := .writing entry }

def messageAnswered (state : State) (entry : ErrorLogEntry) (takes : Bool) : State :=
  let answered := state.answered ++ [(entry, takes)]
  if takes then
    { state with
      written := state.written + 1
      log := state.log ++ [.message entry]
      answered
      phase := .settled }
  else
    { state.count with
      dropNoticePending := true
      answered
      lost := state.lost + 1
      phase := .settled }

inductive Event
  | submit (makeLine : LineFormatter) (level : LogLevel) (tag message : Bytes)
  | submitLine (level : LogLevel) (formattedLine : Bytes)
  /-- the log task goes on; a line it forms and an answer it waits for are given -/
  | drain (makeLine : LineFormatter) (takes : Bool)

def drain (makeLine : LineFormatter) (takes : Bool) (state : State) : State :=
  match state.phase with
  | .idle => pop { state with written := 0 }
  | .popped entry => look makeLine state entry
  | .noticing entry note count => noticeAnswered state entry note count takes
  | .writing entry => messageAnswered state entry takes
  | .settled => pop state

def next (capacity : Nat) (state : State) (event : Event) : State :=
  match event with
  | .submit makeLine level tag message => submit capacity makeLine state level tag message
  | .submitLine level formattedLine => submitLine capacity state level formattedLine
  | .drain makeLine takes => drain makeLine takes state

def Phase.held : Phase → List ErrorLogEntry
  | .idle | .settled => []
  | .popped entry | .noticing entry _ _ | .writing entry => [entry]

namespace State

/-- The sum of the numbers in the notices that were written. -/
def noticed (state : State) : Nat :=
  (state.log.map fun record ↦
    match record with
    | .notice count _ => count.toNat
    | .message _ => 0).sum

def messages (state : State) : List ErrorLogEntry :=
  state.log.filterMap fun record ↦
    match record with
    | .notice _ _ => none
    | .message entry => some entry

def popped (state : State) : List ErrorLogEntry := state.answered.map Prod.fst ++ state.phase.held

end State

def Balanced (state : State) : Prop := state.noticed + state.dropped.toNat = state.lost

/-- Every other popped message was written, once and in its place. -/
structure CountedOnce (state : State) : Prop where
  losses : Balanced state
  written : state.messages = (state.answered.filter Prod.snd).map Prod.fst
  order : state.popped ++ state.queue = state.accepted

/-- A step that neither counts a notice as a loss, nor forgets a loss behind the back of a notice, nor
counts past the end of the counter. -/
def Exact (capacity : Nat) (state : State) (event : Event) : Prop :=
  match event, state.phase with
  | .submit _ _ _ _, _ | .submitLine _ _, _ =>
    state.queue.length < capacity ∨ state.dropped.toNat + 1 < 2 ^ 32
  | .drain _ takes, .noticing _ _ count => takes = true ∧ state.dropped = count
  | .drain _ takes, .writing _ => takes = true ∨ state.dropped.toNat + 1 < 2 ^ 32
  | .drain _ _, _ => True

variable {capacity : Nat} {state state' : State} {entry note : ErrorLogEntry} {count : UInt32} {takes : Bool}
  {makeLine : LineFormatter} {level : LogLevel} {line : Bytes} {event : Event} {events : List Event}

theorem toNat_add_one_eq_iff (count : UInt32) :
    (count + 1).toNat = count.toNat + 1 ↔ count.toNat + 1 < 2 ^ 32 := by
  have hword := count.toNat_lt
  rw [UInt32.toNat_add, UInt32.toNat_one]
  omega

@[simp]
theorem noticed_notice (state : State) (count : UInt32) (note : ErrorLogEntry) :
    State.noticed { state with log := state.log ++ [.notice count note] } =
      state.noticed + count.toNat := by
  simp [State.noticed]

@[simp]
theorem noticed_message (state : State) (entry : ErrorLogEntry) :
    State.noticed { state with log := state.log ++ [.message entry] } = state.noticed := by
  simp [State.noticed]

section

variable (hbalanced : Balanced state)
include hbalanced

/-- A loss that is counted leaves the account as it was, as long as there is room in the counter. -/
theorem balanced_count_iff (hnoticed : state'.noticed = state.noticed)
    (hdropped : state'.dropped = state.dropped + 1) (hlost : state'.lost = state.lost + 1) :
    Balanced state' ↔ state.dropped.toNat + 1 < 2 ^ 32 := by
  unfold Balanced at hbalanced ⊢
  rw [hnoticed, hdropped, hlost, ← toNat_add_one_eq_iff]
  omega

theorem submitLine_balanced_iff :
    Balanced (submitLine capacity state level line) ↔
      state.queue.length < capacity ∨ state.dropped.toNat + 1 < 2 ^ 32 := by
  unfold submitLine
  split_ifs with hfits
  · exact iff_of_true hbalanced (.inl hfits)
  · exact Iff.trans (balanced_count_iff hbalanced rfl rfl rfl) (or_iff_right hfits).symm

theorem messageAnswered_balanced_iff :
    Balanced (messageAnswered state entry takes) ↔ takes ∨ state.dropped.toNat + 1 < 2 ^ 32 := by
  cases takes with
  | true =>
    refine iff_of_true ?_ (.inl rfl)
    have hnoticed : (messageAnswered state entry true).noticed = state.noticed := noticed_message state entry
    unfold Balanced
    rw [hnoticed]
    exact hbalanced
  | false =>
    exact Iff.trans (balanced_count_iff hbalanced rfl rfl rfl) (or_iff_right Bool.false_ne_true).symm

/-- A notice that is refused is no loss of a message, and one that is taken must not hide any. -/
theorem noticeAnswered_balanced_iff :
    Balanced (noticeAnswered state entry note count takes) ↔ takes ∧ state.dropped = count := by
  unfold Balanced at hbalanced
  cases takes with
  | true =>
    have hnoticed : (noticeAnswered state entry note count true).noticed = state.noticed + count.toNat :=
      noticed_notice state count note
    unfold Balanced
    rw [hnoticed]
    change state.noticed + count.toNat + 0 = state.lost ↔ _
    constructor
    · intro hkept
      exact ⟨rfl, UInt32.toNat_inj.mp (by omega)⟩
    · rintro ⟨-, rfl⟩
      exact hbalanced
  | false =>
    refine iff_of_false ?_ fun htakes ↦ Bool.false_ne_true htakes.1
    change ¬state.noticed + (state.dropped + 1).toNat = state.lost
    have hword := state.dropped.toNat_lt
    rw [UInt32.toNat_add, UInt32.toNat_one]
    omega

end

theorem pop_balanced_iff : Balanced (pop state) ↔ Balanced state := by
  unfold pop
  split <;> rfl

theorem look_balanced_iff : Balanced (look makeLine state entry) ↔ Balanced state := by
  unfold look
  split_ifs <;> rfl

theorem next_balanced_iff (hbalanced : Balanced state) :
    Balanced (next capacity state event) ↔ Exact capacity state event := by
  cases event with
  | submit makeLine level tag message => exact submitLine_balanced_iff hbalanced
  | submitLine level line => exact submitLine_balanced_iff hbalanced
  | drain makeLine takes =>
    unfold next drain Exact
    cases hphase : state.phase with
    | idle => exact iff_of_true (pop_balanced_iff.mpr hbalanced) trivial
    | popped entry => exact iff_of_true (look_balanced_iff.mpr hbalanced) trivial
    | noticing entry note count => exact noticeAnswered_balanced_iff hbalanced
    | writing entry => exact messageAnswered_balanced_iff hbalanced
    | settled => exact iff_of_true (pop_balanced_iff.mpr hbalanced) trivial

structure InOrder (state : State) : Prop where
  written : state.messages = (state.answered.filter Prod.snd).map Prod.fst
  order : state.popped ++ state.queue = state.accepted

theorem InOrder.submitLine (horder : InOrder state) (capacity : Nat) (level : LogLevel) (line : Bytes) :
    InOrder (submitLine capacity state level line) := by
  obtain ⟨hwritten, horder⟩ := horder
  unfold ErrorLog.submitLine
  split_ifs
  · refine ⟨hwritten, ?_⟩
    change state.popped ++ (state.queue ++ [_]) = state.accepted ++ [_]
    rw [← List.append_assoc, horder]
  · exact ⟨hwritten, horder⟩

theorem InOrder.pop (hheld : state.phase.held = []) (horder : InOrder state) : InOrder (pop state) := by
  obtain ⟨hwritten, horder⟩ := horder
  rw [State.popped, hheld, List.append_nil] at horder
  unfold ErrorLog.pop
  split
  case h_1 hqueue =>
    refine ⟨hwritten, ?_⟩
    simpa [State.popped, Phase.held, hqueue] using horder
  case h_2 entry queue hqueue =>
    refine ⟨hwritten, ?_⟩
    simpa [State.popped, Phase.held, hqueue] using horder

theorem InOrder.look (hphase : state.phase = .popped entry) (horder : InOrder state)
    (makeLine : LineFormatter) : InOrder (look makeLine state entry) := by
  obtain ⟨hwritten, horder⟩ := horder
  rw [State.popped, hphase] at horder
  unfold ErrorLog.look
  split_ifs
  · exact ⟨hwritten, horder⟩
  · exact ⟨hwritten, horder⟩

theorem InOrder.noticeAnswered (hphase : state.phase = .noticing entry note count) (horder : InOrder state)
    (takes : Bool) : InOrder (noticeAnswered state entry note count takes) := by
  obtain ⟨hwritten, horder⟩ := horder
  rw [State.popped, hphase] at horder
  unfold ErrorLog.noticeAnswered
  split_ifs
  · refine ⟨?_, horder⟩
    simpa [State.messages] using hwritten
  · exact ⟨hwritten, horder⟩

theorem InOrder.messageAnswered (hphase : state.phase = .writing entry) (horder : InOrder state)
    (takes : Bool) : InOrder (messageAnswered state entry takes) := by
  obtain ⟨hwritten, horder⟩ := horder
  rw [State.popped, hphase] at horder
  cases takes with
  | true =>
    refine ⟨?_, ?_⟩
    · simpa [ErrorLog.messageAnswered, State.messages] using hwritten
    · simpa [ErrorLog.messageAnswered, State.popped, Phase.held] using horder
  | false =>
    refine ⟨?_, ?_⟩
    · simpa [ErrorLog.messageAnswered, State.count, State.messages] using hwritten
    · simpa [ErrorLog.messageAnswered, State.count, State.popped, Phase.held] using horder

theorem InOrder.next (horder : InOrder state) (capacity : Nat) (event : Event) :
    InOrder (next capacity state event) := by
  cases event with
  | submit makeLine level tag message => exact horder.submitLine capacity level _
  | submitLine level line => exact horder.submitLine capacity level line
  | drain makeLine takes =>
    unfold ErrorLog.next drain
    cases hphase : state.phase with
    | idle =>
      obtain ⟨hwritten, horder⟩ := horder
      rw [State.popped, hphase] at horder
      exact InOrder.pop rfl ⟨hwritten, horder⟩
    | popped entry => exact horder.look hphase makeLine
    | noticing entry note count => exact horder.noticeAnswered hphase takes
    | writing entry => exact horder.messageAnswered hphase takes
    | settled => exact horder.pop (by rw [hphase]; rfl)

theorem inOrder_of_run (hrun : Run (fun state event state' ↦ state' = next capacity state event) .start events
    state) : InOrder state := by
  refine hrun.preserves (fun state event state' horder hstep ↦ ?_) ⟨rfl, rfl⟩
  rw [hstep]
  exact horder.next capacity event

/-- Every loss is counted once in every run whose steps are exact. -/
theorem losses_counted_once (hrun : Run (fun state event state' ↦
      Exact capacity state event ∧ state' = next capacity state event) .start events state) :
    CountedOnce state := by
  have horder := inOrder_of_run (hrun.mono fun _ _ _ hstep ↦ hstep.2)
  have hbalanced : Balanced state := by
    refine hrun.preserves (fun state event state' hbalanced hstep ↦ ?_) rfl
    rw [hstep.2]
    exact (next_balanced_iff hbalanced).mpr hstep.1
  exact ⟨hbalanced, horder.written, horder.order⟩

def plainLine : LineFormatter := fun _ _ message ↦ message

def goesOn : Event := .drain plainLine true

/-- A queue of one: the second message is lost, a notice admits it, and both others are written. -/
def honestEvents : List Event :=
  [.submitLine .error (ascii "a"), .submitLine .error (ascii "b"), goesOn, goesOn, goesOn, goesOn]

instance (capacity : Nat) (state : State) (event : Event) : Decidable (Exact capacity state event) := by
  unfold Exact
  split <;> infer_instance

theorem losses_counted_once_of_notice :
    CountedOnce (honestEvents.foldl (next 1) .start) ∧ (honestEvents.foldl (next 1) .start).noticed = 1 := by
  have hexact : AllowedAlong (next 1) (Exact 1) .start honestEvents := by decide
  exact ⟨losses_counted_once hexact.run, by decide⟩

/-- The notice is refused, and counted with the loss it was to admit. -/
def refusedNotice : List Event :=
  [.submitLine .error (ascii "a"), .submitLine .error (ascii "b"), goesOn, goesOn, .drain plainLine false]

/-- While the notice is with the target the queue is full again, and the loss is forgotten. -/
def forgottenLoss : List Event :=
  [.submitLine .error (ascii "a"), .submitLine .error (ascii "b"), goesOn, goesOn,
    .submitLine .error (ascii "c"), .submitLine .error (ascii "d"), goesOn]

theorem losses_miscounted :
    ¬Balanced (refusedNotice.foldl (next 1) .start) ∧ ¬Balanced (forgottenLoss.foldl (next 1) .start) := by
  unfold Balanced
  decide

end DhcpServer.Core.ErrorLog
