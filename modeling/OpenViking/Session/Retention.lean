import Mathlib.Data.List.Induction
import Mathlib.Data.List.Nodup
import Mathlib.Algebra.Order.BigOperators.Group.List
import Mathlib.Algebra.Order.Group.Nat
import Mathlib.Algebra.GroupWithZero.Nat

/-!
# Planning what a session keeps

The planner groups the messages of a session into turns, each a user query with
the steps that answer it, and chooses the border between the messages that go to
an archive and the messages that stay live.
-/

namespace OpenViking
namespace Session

open List Nat

inductive Role where
  | user
  | assistant
deriving DecidableEq

inductive MessageKind where
  | userQuery
  | assistantStep
  | toolTransport
  | checkpoint
deriving DecidableEq

inductive Part where
  | text
  | context
  | image
  | tool
deriving DecidableEq

/-- A message, with the estimate of the tokens its parts take. -/
structure Message where
  id : Nat
  role : Role
  messageKind : Option MessageKind
  parts : List Part
  estimatedTokens : Nat
deriving DecidableEq

def isToolTransport (message : Message) : Bool :=
  match message.messageKind with
  | some .toolTransport => true
  | some .userQuery => false
  | _ =>
    !message.parts.isEmpty && message.role == .user &&
      message.parts.all (· == Part.tool)

def isUserQuery (message : Message) : Bool :=
  match message.messageKind with
  | some .userQuery => true
  | some .toolTransport => false
  | _ => message.role == .user && !isToolTransport message

def ids (messages : List Message) : List Nat :=
  messages.map Message.id

def messageTokens (messages : List Message) : Nat :=
  (messages.map Message.estimatedTokens).sum

theorem ids_append (xs ys : List Message) : ids (xs ++ ys) = ids xs ++ ids ys := by
  rw [ids, map_append]
  rfl

variable {m : Message}

theorem mem_ids {messages : List Message} (h : m ∈ messages) :
    m.id ∈ ids messages :=
  mem_map_of_mem h

theorem messageTokens_append (xs ys : List Message) :
    messageTokens (xs ++ ys) = messageTokens xs + messageTokens ys := by
  rw [messageTokens, map_append, List.sum_append]
  rfl

/-!
# Turns

A step is one assistant message with the tool messages that follow it.
-/

/-- One assistant response and the tool transports behind it. -/
abbrev AssistantStep := List Message

/-- A user query and everything before the next one. -/
structure UserTurn where
  anchor : Option Message
  steps : List AssistantStep
deriving DecidableEq

variable (turn : UserTurn)

def UserTurn.messages : List Message :=
  turn.anchor.toList ++ turn.steps.flatten

def UserTurn.estimatedTokens : Nat :=
  messageTokens turn.messages

def flattenTurns (turns : List UserTurn) : List Message :=
  turns.flatMap UserTurn.messages

def appendToTurn (message : Message) : UserTurn :=
  match isToolTransport message, turn.steps.getLast? with
  | true, some last =>
    { turn with steps := turn.steps.dropLast ++ [last ++ [message]] }
  | _, _ => { turn with steps := turn.steps ++ [[message]] }

def addToTurns (turns : List UserTurn) (message : Message) : List UserTurn :=
  if isUserQuery message then
    turns ++ [{ anchor := some message, steps := [] }]
  else
    match turns.getLast? with
    | none => [appendToTurn { anchor := none, steps := [] } message]
    | some current => turns.dropLast ++ [appendToTurn current message]

def buildTurns (messages : List Message) : List UserTurn :=
  messages.foldl addToTurns []

theorem appendToTurn_messages (message : Message) :
    (appendToTurn turn message).messages = turn.messages ++ [message] := by
  unfold appendToTurn UserTurn.messages
  split
  · next last _ hlast =>
      have hsteps : turn.steps = turn.steps.dropLast ++ [last] :=
        (dropLast_append_getLast? last hlast).symm
      rw [hsteps]
      simp
  · simp

theorem flattenTurns_append (xs ys : List UserTurn) :
    flattenTurns (xs ++ ys) = flattenTurns xs ++ flattenTurns ys :=
  flatMap_append

theorem flattenTurns_singleton : flattenTurns [turn] = turn.messages := by
  simp [flattenTurns]

theorem addToTurns_flatten (turns : List UserTurn) (message : Message) :
    flattenTurns (addToTurns turns message) = flattenTurns turns ++ [message] := by
  unfold addToTurns
  by_cases hquery : isUserQuery message = true
  · rw [if_pos hquery, flattenTurns_append, flattenTurns_singleton]
    rfl
  rw [if_neg hquery]
  cases hlast : turns.getLast? with
  | none =>
    have hnil : turns = [] := getLast?_eq_none_iff.mp hlast
    rw [hnil]
    show flattenTurns [appendToTurn _ message] = _
    rw [flattenTurns_singleton, appendToTurn_messages]
    rfl
  | some current =>
    have hturns : turns = turns.dropLast ++ [current] :=
      (dropLast_append_getLast? current hlast).symm
    show flattenTurns (turns.dropLast ++ [appendToTurn current message]) = _
    rw [flattenTurns_append, flattenTurns_singleton, appendToTurn_messages,
      ← append_assoc]
    congr 1
    rw [← flattenTurns_singleton, ← flattenTurns_append, ← hturns]

theorem foldl_addToTurns_flatten (messages : List Message) (turns : List UserTurn) :
    flattenTurns (messages.foldl addToTurns turns) =
      flattenTurns turns ++ messages := by
  induction messages generalizing turns with
  | nil => simp
  | cons m rest ih =>
    rw [foldl_cons, ih, addToTurns_flatten]
    simp

theorem buildTurns_flatten (messages : List Message) :
    flattenTurns (buildTurns messages) = messages :=
  foldl_addToTurns_flatten messages []

/-!
# The plan
-/

structure RetentionPlan where
  archiveMessages : List Message
  retainedMessages : List Message
  turnAnchor : Option Message
  checkpointSourceMessageIds : List Nat
  rawTailStartMessageId : Option Nat
  estimatedActiveTokens : Nat
  budgetExceeded : Bool
  partialTurn : Bool
deriving DecidableEq

def checkpointTokenReserve : Nat := 1024

/-- The number of further steps, from the newest to the oldest, that the budget
takes. -/
def stepsWithin (rawBudget : Nat) : Nat -> List AssistantStep -> Nat
  | _, [] => 0
  | tokens, candidate :: rest =>
    if tokens + messageTokens candidate > rawBudget then 0
    else stepsWithin rawBudget (tokens + messageTokens candidate) rest + 1

/-- The position of the oldest step that stays live with its anchor. -/
def firstRetainedStep (anchor : Option Message) (steps : List AssistantStep)
    (tokenBudget minRawTailSteps : Nat) : Nat :=
  let minTail := if steps.isEmpty then 0 else max 1 minRawTailSteps
  let first := steps.length - minTail
  let rawBudget :=
    tokenBudget - min checkpointTokenReserve (tokenBudget / 4)
  let retainedTokens :=
    messageTokens anchor.toList + messageTokens (steps.drop first).flatten
  first - stepsWithin rawBudget retainedTokens (steps.take first).reverse

def partialLatestTurnPlan (olderTurns : List UserTurn) (latestTurn : UserTurn)
    (tokenBudget minRawTailSteps : Nat) : RetentionPlan :=
  let first :=
    firstRetainedStep latestTurn.anchor latestTurn.steps tokenBudget
      minRawTailSteps
  let archivedSource := (latestTurn.steps.take first).flatten
  let retainedSteps := latestTurn.steps.drop first
  let retained := latestTurn.anchor.toList ++ retainedSteps.flatten
  { archiveMessages :=
      flattenTurns olderTurns ++
        (if archivedSource.isEmpty then []
          else latestTurn.anchor.toList ++ archivedSource)
    retainedMessages := retained
    turnAnchor := latestTurn.anchor
    checkpointSourceMessageIds := ids archivedSource
    rawTailStartMessageId :=
      (retainedSteps.head?.bind List.head?).map Message.id
    estimatedActiveTokens := messageTokens retained
    budgetExceeded := messageTokens retained > tokenBudget
    partialTurn := !archivedSource.isEmpty }

/-- Oldest turns go first while more than one is left and they exceed the
budget. -/
def evictOldest (tokenBudget : Nat) : List UserTurn -> List UserTurn
  | [] => []
  | [turn] => [turn]
  | turn :: next :: rest =>
    if ((turn :: next :: rest).map UserTurn.estimatedTokens).sum > tokenBudget
    then evictOldest tokenBudget (next :: rest)
    else turn :: next :: rest

/-- The newest turns, without the oldest of them while they exceed the budget. -/
def retainedWindow (turns : List UserTurn) (keepRecentTurnCount tokenBudget : Nat) :
    List UserTurn :=
  evictOldest tokenBudget (turns.drop (turns.length - keepRecentTurnCount))

def wholePlan (archive retained : List Message) (activeTokens : Nat) :
    RetentionPlan :=
  { archiveMessages := archive
    retainedMessages := retained
    turnAnchor := none
    checkpointSourceMessageIds := []
    rawTailStartMessageId := none
    estimatedActiveTokens := activeTokens
    budgetExceeded := false
    partialTurn := false }

def planRetention (messages : List Message)
    (keepRecentTurnCount tokenBudget minRawTailSteps : Nat) : RetentionPlan :=
  let turns := buildTurns messages
  if turns.isEmpty || keepRecentTurnCount == 0 then
    wholePlan messages [] 0
  else
    let retainedTurns :=
      retainedWindow turns keepRecentTurnCount tokenBudget
    let olderTurns := turns.take (turns.length - retainedTurns.length)
    match retainedTurns.getLast? with
    | none => wholePlan messages [] 0
    | some latestTurn =>
      if latestTurn.estimatedTokens > tokenBudget then
        if latestTurn.anchor.isNone then
          wholePlan (flattenTurns (olderTurns ++ [latestTurn])) [] 0
        else
          partialLatestTurnPlan olderTurns latestTurn tokenBudget
            minRawTailSteps
      else
        wholePlan (flattenTurns olderTurns) (flattenTurns retainedTurns)
          (messageTokens (flattenTurns retainedTurns))

/-!
# Where the plan cuts

The archive is the front of the messages.  What stays is the rest, with a copy
of the query in front when its turn is cut.
-/

/-- The archive is a front part, and at most one of its messages stays too. -/
def SplitAt (messages archive retained : List Message) : Prop :=
  exists back, messages = archive ++ back ∧
    (retained = back ∨ exists a, a ∈ archive ∧ retained = a :: back)

theorem splitAt_all (messages : List Message) : SplitAt messages messages [] :=
  ⟨[], (append_nil messages).symm, .inl rfl⟩

theorem evictOldest_suffix (tokenBudget : Nat) (turns : List UserTurn) :
    evictOldest tokenBudget turns <:+ turns := by
  induction turns with
  | nil => exact suffix_rfl
  | cons turn rest ih =>
    cases rest with
    | nil => exact suffix_rfl
    | cons next rest =>
      rw [evictOldest]
      split
      · exact ih.trans (suffix_cons turn _)
      · exact suffix_rfl

theorem evictOldest_within (tokenBudget : Nat) (turns : List UserTurn) :
    (evictOldest tokenBudget turns).length ≤ 1 ∨
      ((evictOldest tokenBudget turns).map UserTurn.estimatedTokens).sum ≤
        tokenBudget := by
  induction turns with
  | nil => exact .inl (Nat.zero_le 1)
  | cons turn rest ih =>
    cases rest with
    | nil => exact .inl (Nat.le_refl 1)
    | cons next rest =>
      rw [evictOldest]
      split
      · exact ih
      · next hle => exact .inr (Nat.le_of_not_lt hle)

theorem retainedWindow_suffix (turns : List UserTurn) (keep tokenBudget : Nat) :
    retainedWindow turns keep tokenBudget <:+ turns :=
  (evictOldest_suffix tokenBudget _).trans (drop_suffix _ turns)

theorem take_append_window (turns : List UserTurn) (keep tokenBudget : Nat) :
    turns.take (turns.length - (retainedWindow turns keep tokenBudget).length) ++
      retainedWindow turns keep tokenBudget = turns := by
  rcases retainedWindow_suffix turns keep tokenBudget with ⟨older, holder⟩
  generalize retainedWindow turns keep tokenBudget = window at holder ⊢
  rw [← holder, length_append, Nat.add_sub_cancel, take_left]

variable {tokenBudget : Nat}

variable {latest : UserTurn} {turns : List UserTurn}

theorem retainedWindow_single {keep : Nat}
    (hlast : (retainedWindow turns keep tokenBudget).getLast? = some latest)
    (hover : latest.estimatedTokens > tokenBudget) :
    retainedWindow turns keep tokenBudget = [latest] := by
  have hmem : latest ∈ retainedWindow turns keep tokenBudget :=
    mem_of_getLast? hlast
  have hlength : (retainedWindow turns keep tokenBudget).length ≤ 1 := by
    rcases evictOldest_within tokenBudget
      (turns.drop (turns.length - keep)) with hone | hsum
    · exact hone
    · have htokens : latest.estimatedTokens ∈
          (retainedWindow turns keep tokenBudget).map UserTurn.estimatedTokens :=
        mem_map_of_mem hmem
      have hle := single_le_sum (fun _ _ => zero_le _) _ htokens
      exact absurd (le_trans hle hsum) (not_le_of_gt hover)
  generalize retainedWindow turns keep tokenBudget = window at hlast hmem hlength
  match window with
  | [] => cases hmem
  | [turn] =>
    rw [mem_singleton.mp hmem]
  | _ :: _ :: _ => simp at hlength

theorem planRetention_cases (messages : List Message)
    (keep tokenBudget minTail : Nat) :
    planRetention messages keep tokenBudget minTail = wholePlan messages [] 0 ∨
      exists latest,
        (retainedWindow (buildTurns messages) keep tokenBudget).getLast? =
          some latest ∧ keep ≠ 0 ∧
        ((latest.estimatedTokens > tokenBudget ∧ latest.anchor = none ∧
            planRetention messages keep tokenBudget minTail =
              wholePlan messages [] 0) ∨
          (exists a older, latest.estimatedTokens > tokenBudget ∧
            latest.anchor = some a ∧ buildTurns messages = older ++ [latest] ∧
            planRetention messages keep tokenBudget minTail =
              partialLatestTurnPlan older latest tokenBudget minTail) ∨
          exists older, latest.estimatedTokens ≤ tokenBudget ∧
            buildTurns messages =
              older ++ retainedWindow (buildTurns messages) keep tokenBudget ∧
            planRetention messages keep tokenBudget minTail =
              wholePlan (flattenTurns older)
                (flattenTurns (retainedWindow (buildTurns messages) keep
                  tokenBudget))
                (messageTokens (flattenTurns (retainedWindow
                  (buildTurns messages) keep tokenBudget)))) := by
  have happend := take_append_window (buildTurns messages) keep tokenBudget
  unfold planRetention
  dsimp only
  split
  · exact .inl rfl
  · next hturns =>
      have hkeep : keep ≠ 0 := by
        intro hzero
        rw [hzero] at hturns
        simp at hturns
      cases hlast : (retainedWindow (buildTurns messages) keep
          tokenBudget).getLast? with
      | none => exact .inl rfl
      | some latest =>
        apply Or.inr
        refine ⟨latest, rfl, hkeep, ?_⟩
        by_cases hover : latest.estimatedTokens > tokenBudget
        · have hsingle := retainedWindow_single hlast hover
          cases hanchor : latest.anchor with
          | none =>
            refine .inl ⟨hover, rfl, ?_⟩
            simp only [hover, hanchor, Option.isNone_none, if_true]
            rw [← hsingle, happend, buildTurns_flatten]
          | some a =>
            refine .inr (Or.inl ⟨a, (buildTurns messages).take
              ((buildTurns messages).length - (retainedWindow
                (buildTurns messages) keep tokenBudget).length),
              hover, rfl, ?_, ?_⟩)
            · rw [← hsingle]
              exact happend.symm
            · simp [hover, hanchor]
        · refine .inr (Or.inr ⟨_, Nat.le_of_not_lt hover, happend.symm, ?_⟩)
          simp only [hover, if_false]

variable {older : List UserTurn}

variable {a : Message}

theorem partialLatestTurnPlan_split {messages : List Message}
    {minTail : Nat} (hturns : buildTurns messages = older ++ [latest])
    (hanchor : latest.anchor = some a) :
    SplitAt messages
      (partialLatestTurnPlan older latest tokenBudget minTail).archiveMessages
      (partialLatestTurnPlan older latest tokenBudget minTail).retainedMessages := by
  have hmessages : messages =
      flattenTurns older ++ a :: latest.steps.flatten := by
    rw [← buildTurns_flatten messages, hturns, flattenTurns_append,
      flattenTurns_singleton, UserTurn.messages, hanchor]
    rfl
  unfold partialLatestTurnPlan
  rw [hanchor]
  dsimp only
  generalize firstRetainedStep (some a) latest.steps tokenBudget minTail = first
  have hsteps : latest.steps.flatten =
      (latest.steps.take first).flatten ++ (latest.steps.drop first).flatten := by
    rw [← flatten_append, take_append_drop]
  rw [hmessages, hsteps]
  cases hsource : (latest.steps.take first).flatten with
  | nil =>
    refine ⟨a :: (latest.steps.drop first).flatten, ?_, .inl rfl⟩
    simp
  | cons m rest =>
    refine ⟨(latest.steps.drop first).flatten, ?_, .inr ⟨a, ?_, rfl⟩⟩
    · simp
    · simp

theorem planRetention_split (messages : List Message)
    (keep tokenBudget minTail : Nat) :
    SplitAt messages
      (planRetention messages keep tokenBudget minTail).archiveMessages
      (planRetention messages keep tokenBudget minTail).retainedMessages := by
  rcases planRetention_cases messages keep tokenBudget minTail with hall |
    ⟨latest, _, _, ⟨_, _, hall⟩ | ⟨a, older, _, hanchor, hturns, hplan⟩ |
      ⟨older, _, hturns, hplan⟩⟩
  · rw [hall]
    exact splitAt_all messages
  · rw [hall]
    exact splitAt_all messages
  · rw [hplan]
    exact partialLatestTurnPlan_split hturns hanchor
  · rw [hplan]
    refine ⟨_, ?_, .inl rfl⟩
    show messages = flattenTurns older ++ flattenTurns _
    rw [← flattenTurns_append, ← hturns, buildTurns_flatten]

/-!
# Planning again what a plan kept

A plan of what an earlier plan kept, under the same policy, archives nothing.
-/

theorem buildTurns_concat (messages : List Message) (m : Message) :
    buildTurns (messages ++ [m]) = addToTurns (buildTurns messages) m := by
  rw [buildTurns, foldl_append]
  rfl

/-- Every back part of the turns is what grouping its messages gives. -/
def Regroups (turns : List UserTurn) : Prop :=
  (forall k, buildTurns (flattenTurns (turns.drop k)) = turns.drop k) ∧
    forall turn a k, turns.getLast? = some turn -> turn.anchor = some a ->
      buildTurns (a :: (turn.steps.drop k).flatten) =
        [{ anchor := some a, steps := turn.steps.drop k }]

theorem appendToTurn_anchor (m : Message) :
    (appendToTurn turn m).anchor = turn.anchor := by
  unfold appendToTurn
  split
  · rfl
  · rfl

theorem appendToTurn_drop {turn : UserTurn} {k : Nat} (hk : k < turn.steps.length) :
    (appendToTurn turn m).steps.drop k =
      (appendToTurn { turn with steps := turn.steps.drop k } m).steps := by
  have hlast : (turn.steps.drop k).getLast? = turn.steps.getLast? := by
    rw [getLast?_drop, if_neg (not_le_of_gt hk)]
  unfold appendToTurn
  dsimp only
  rw [hlast]
  cases htransport : isToolTransport m with
  | false => exact drop_append_of_le_length (le_of_lt hk)
  | true =>
    cases hget : turn.steps.getLast? with
    | none => exact drop_append_of_le_length (le_of_lt hk)
    | some last =>
      dsimp only
      rw [drop_append_of_le_length
        (by rw [length_dropLast]; exact le_sub_one_of_lt hk)]
      rw [dropLast_eq_take, dropLast_eq_take, drop_take,
        length_drop]
      congr 2
      omega

theorem regroups_concat_query (h : Regroups turns) (hquery : isUserQuery m = true) :
    Regroups (turns ++ [{ anchor := some m, steps := [] }]) := by
  have hone : buildTurns [m] = [{ anchor := some m, steps := [] }] := by
    show addToTurns [] m = _
    rw [addToTurns, if_pos hquery]
    rfl
  constructor
  · intro k
    by_cases hk : k ≤ turns.length
    · rw [drop_append_of_le_length hk, flattenTurns_append,
        flattenTurns_singleton]
      show buildTurns (flattenTurns (turns.drop k) ++ [m]) = _
      rw [buildTurns_concat, h.1 k, addToTurns, if_pos hquery]
    · rw [drop_eq_nil_of_le (by simp; omega)]
      rfl
  · intro turn a k hlast hanchor
    rw [getLast?_concat] at hlast
    cases hlast
    cases hanchor
    rw [drop_nil]
    exact hone

theorem regroups_first (hquery : isUserQuery m = false) :
    Regroups [appendToTurn { anchor := none, steps := [] } m] := by
  constructor
  · intro k
    cases k with
    | zero =>
      rw [drop_zero, flattenTurns_singleton, appendToTurn_messages]
      show addToTurns [] m = _
      rw [addToTurns, hquery]
      rfl
    | succ k =>
      rw [drop_succ_cons, drop_nil]
      rfl
  · intro turn a k hlast hanchor
    rw [getLast?_singleton] at hlast
    cases hlast
    rw [appendToTurn_anchor] at hanchor
    cases hanchor

variable {current : UserTurn}

theorem addToTurns_concat (hquery : isUserQuery m = false) :
    addToTurns (older ++ [current]) m = older ++ [appendToTurn current m] := by
  rw [addToTurns, hquery, getLast?_concat]
  simp

theorem regroups_append_step {k : Nat}
    (h : forall k, buildTurns (a :: (current.steps.drop k).flatten) =
      [{ anchor := some a, steps := current.steps.drop k }])
    (hanchor : current.anchor = some a) (hquery : isUserQuery m = false) :
    buildTurns (a :: ((appendToTurn current m).steps.drop k).flatten) =
      [{ anchor := some a, steps := (appendToTurn current m).steps.drop k }] := by
  have hbuild (steps : List AssistantStep)
      (hsteps : buildTurns (a :: steps.flatten) = [{ anchor := some a, steps := steps }]) :
      buildTurns
          (a :: (appendToTurn { anchor := some a, steps := steps } m).steps.flatten) =
        [{ anchor := some a
           steps := (appendToTurn { anchor := some a, steps := steps } m).steps }] := by
    have hmessages := appendToTurn_messages { anchor := some a, steps := steps } m
    rw [UserTurn.messages, appendToTurn_anchor] at hmessages
    have hwhole :
        a :: (appendToTurn { anchor := some a, steps := steps } m).steps.flatten =
          (a :: steps.flatten) ++ [m] := hmessages
    rw [hwhole, buildTurns_concat, hsteps]
    rw [show [({ anchor := some a, steps := steps } : UserTurn)] =
      [] ++ [{ anchor := some a, steps := steps }] from rfl,
      addToTurns_concat hquery, nil_append]
    have hkeep := appendToTurn_anchor { anchor := some a, steps := steps } m
    generalize appendToTurn { anchor := some a, steps := steps } m = turn at hkeep ⊢
    cases turn
    cases hkeep
    rfl
  by_cases hk : k < current.steps.length
  · rw [appendToTurn_drop hk]
    have hturn : ({ current with steps := current.steps.drop k } : UserTurn) =
        { anchor := some a, steps := current.steps.drop k } := by
      rw [hanchor]
    rw [hturn]
    exact hbuild _ (h k)
  · have hnone : current.steps.drop k = [] :=
      drop_eq_nil_of_le (Nat.le_of_not_lt hk)
    have hnil := h k
    rw [hnone] at hnil
    have hcases : (appendToTurn current m).steps.drop k = [] ∨
        (appendToTurn current m).steps.drop k = [[m]] := by
      unfold appendToTurn
      split
      · next last _ hlast =>
          apply Or.inl
          apply drop_eq_nil_of_le
          have hpos : 0 < current.steps.length :=
            length_pos_of_mem (mem_of_getLast? hlast)
          simp
          omega
      · dsimp only
        by_cases heq : k = current.steps.length
        · rw [heq, drop_left]
          exact .inr rfl
        · apply Or.inl
          apply drop_eq_nil_of_le
          simp
          omega
    rcases hcases with hempty | hnew
    · rw [hempty]
      exact hnil
    have hstep := hbuild [] hnil
    have hsteps : (appendToTurn { anchor := some a, steps := [] } m).steps =
        [[m]] := by
      unfold appendToTurn
      split
      · next heq => cases heq
      · rfl
    rw [hsteps] at hstep
    rw [hnew]
    exact hstep

theorem regroups_concat
    (h : Regroups (older ++ [current])) (hquery : isUserQuery m = false) :
    Regroups (older ++ [appendToTurn current m]) := by
  constructor
  · intro k
    by_cases hk : k ≤ older.length
    · have hback := h.1 k
      rw [drop_append_of_le_length hk] at hback ⊢
      rw [← addToTurns_concat hquery, addToTurns_flatten, buildTurns_concat, hback]
    · rw [drop_eq_nil_of_le (by simp; omega)]
      rfl
  · intro turn a k hlast hanchor
    rw [getLast?_concat] at hlast
    cases hlast
    rw [appendToTurn_anchor] at hanchor
    apply regroups_append_step _ hanchor hquery
    intro k
    exact h.2 current a k getLast?_concat hanchor

theorem buildTurns_regroups (messages : List Message) :
    Regroups (buildTurns messages) := by
  induction messages using reverseRecOn with
  | nil =>
    constructor
    · intro k
      rw [show buildTurns [] = [] from rfl, drop_nil]
      rfl
    · nofun
  | append_singleton messages m ih =>
    rw [buildTurns_concat]
    cases hquery : isUserQuery m with
    | true =>
      rw [addToTurns, if_pos hquery]
      exact regroups_concat_query ih hquery
    | false =>
      rcases eq_nil_or_concat (buildTurns messages) with hnil |
        ⟨older, current, hturns⟩
      · rw [hnil, addToTurns, hquery]
        exact regroups_first hquery
      · rw [concat_eq_append] at hturns
        rw [hturns] at ih ⊢
        rw [addToTurns_concat hquery]
        exact regroups_concat ih hquery

theorem buildTurns_window (messages : List Message) (keep tokenBudget : Nat) :
    buildTurns (flattenTurns
        (retainedWindow (buildTurns messages) keep tokenBudget)) =
      retainedWindow (buildTurns messages) keep tokenBudget := by
  rcases retainedWindow_suffix (buildTurns messages) keep tokenBudget with
    ⟨older, holder⟩
  have hdrop : (buildTurns messages).drop older.length =
      retainedWindow (buildTurns messages) keep tokenBudget := by
    generalize retainedWindow (buildTurns messages) keep tokenBudget = window
      at holder ⊢
    rw [← holder, drop_left]
  rw [← hdrop]
  exact (buildTurns_regroups messages).1 older.length

theorem evictOldest_fixed (h : turns.length ≤ 1 ∨
      (turns.map UserTurn.estimatedTokens).sum ≤ tokenBudget) :
    evictOldest tokenBudget turns = turns := by
  match turns with
  | [] => rfl
  | [turn] => rfl
  | turn :: next :: rest =>
    rw [evictOldest]
    rcases h with hlength | hsum
    · simp at hlength
    · rw [if_neg (not_lt_of_ge hsum)]

theorem evictOldest_length (tokenBudget : Nat) (turns : List UserTurn) :
    (evictOldest tokenBudget turns).length ≤ turns.length :=
  (evictOldest_suffix tokenBudget turns).length_le

theorem retainedWindow_again (turns : List UserTurn) (keep tokenBudget : Nat) :
    retainedWindow (retainedWindow turns keep tokenBudget) keep tokenBudget =
      retainedWindow turns keep tokenBudget := by
  have hlength : (retainedWindow turns keep tokenBudget).length ≤ keep := by
    have hle := evictOldest_length tokenBudget (turns.drop (turns.length - keep))
    rw [length_drop] at hle
    change (evictOldest tokenBudget _).length ≤ keep
    omega
  rw [retainedWindow, Nat.sub_eq_zero_of_le hlength, drop_zero]
  exact evictOldest_fixed (evictOldest_within tokenBudget _)

theorem stepsWithin_le (rawBudget tokens : Nat) (steps : List AssistantStep) :
    stepsWithin rawBudget tokens steps ≤ steps.length := by
  induction steps generalizing tokens with
  | nil => exact le_refl 0
  | cons step rest ih =>
    rw [stepsWithin]
    split
    · exact zero_le _
    · exact succ_le_succ (ih _)

theorem stepsWithin_again (rawBudget tokens : Nat) (steps : List AssistantStep) :
    stepsWithin rawBudget tokens
        (steps.take (stepsWithin rawBudget tokens steps)) =
      stepsWithin rawBudget tokens steps := by
  induction steps generalizing tokens with
  | nil => rfl
  | cons step rest ih =>
    by_cases hover : tokens + messageTokens step > rawBudget
    · rw [stepsWithin, if_pos hover]
      rfl
    · rw [stepsWithin, if_neg hover, take_succ_cons, stepsWithin,
        if_neg hover, ih]

/-- Of the steps that stayed, all stay again. -/
theorem firstRetainedStep_again (anchor : Option Message)
    (steps : List AssistantStep) (tokenBudget minTail : Nat) :
    firstRetainedStep anchor
      (steps.drop (firstRetainedStep anchor steps tokenBudget minTail))
      tokenBudget minTail = 0 := by
  cases hempty : steps.isEmpty with
  | true =>
    rw [isEmpty_iff.mp hempty, drop_nil]
    rfl
  | false =>
    have hpos : 0 < steps.length := by
      cases steps with
      | nil => cases hempty
      | cons => exact Nat.succ_pos _
    let rawBudget := tokenBudget - min checkpointTokenReserve (tokenBudget / 4)
    let start := steps.length - max 1 minTail
    let tokens := messageTokens anchor.toList +
      messageTokens (steps.drop start).flatten
    let more := stepsWithin rawBudget tokens (steps.take start).reverse
    have hfirst : firstRetainedStep anchor steps tokenBudget minTail =
        start - more := by
      unfold firstRetainedStep
      rw [hempty]
      rfl
    have hmore : more ≤ start := by
      have hle := stepsWithin_le rawBudget tokens (steps.take start).reverse
      rw [length_reverse, length_take] at hle
      exact Nat.le_trans hle (Nat.min_le_left _ _)
    have hrest : (steps.drop (start - more)).isEmpty = false := by
      apply Bool.eq_false_iff.mpr
      intro hnil
      have hle := drop_eq_nil_iff.mp (isEmpty_iff.mp hnil)
      omega
    have hstart : (steps.drop (start - more)).length - max 1 minTail = more := by
      rw [length_drop]
      omega
    have hdrop : (steps.drop (start - more)).drop more = steps.drop start := by
      rw [drop_drop]
      congr 1
      omega
    have htake : ((steps.drop (start - more)).take more).reverse =
        (steps.take start).reverse.take more := by
      have hlength : (steps.take start).length = start := by
        rw [length_take]
        omega
      rw [take_reverse, hlength, drop_take]
      congr 2
      omega
    rw [hfirst]
    unfold firstRetainedStep
    rw [hrest]
    dsimp only
    rw [if_neg (by decide), hstart, hdrop, htake]
    change more - stepsWithin rawBudget tokens
      ((steps.take start).reverse.take more) = 0
    rw [stepsWithin_again]
    exact Nat.sub_self _

theorem partialLatestTurnPlan_again {messages : List Message}
    {keep minTail : Nat} (hkeep : keep ≠ 0)
    (hturns : buildTurns messages = older ++ [latest])
    (hanchor : latest.anchor = some a) :
    (planRetention
      (partialLatestTurnPlan older latest tokenBudget minTail).retainedMessages
      keep tokenBudget minTail).archiveMessages = [] := by
  let first := firstRetainedStep (some a) latest.steps tokenBudget minTail
  let kept : UserTurn := { anchor := some a, steps := latest.steps.drop first }
  have hretained :
      (partialLatestTurnPlan older latest tokenBudget minTail).retainedMessages =
        a :: (latest.steps.drop first).flatten := by
    unfold partialLatestTurnPlan
    rw [hanchor]
    rfl
  have hbuild : buildTurns (a :: (latest.steps.drop first).flatten) = [kept] := by
    apply (buildTurns_regroups messages).2 latest a first _ hanchor
    rw [hturns, getLast?_concat]
  have hwindow : retainedWindow [kept] keep tokenBudget = [kept] := by
    have hzero : [kept].length - keep = 0 :=
      Nat.sub_eq_zero_of_le (Nat.one_le_iff_ne_zero.mpr hkeep)
    rw [retainedWindow, hzero, drop_zero]
    rfl
  rw [hretained]
  unfold planRetention
  rw [hbuild]
  dsimp only
  rw [hwindow, if_neg (by simp [hkeep])]
  change (if kept.estimatedTokens > tokenBudget then _ else _ :
    RetentionPlan).archiveMessages = []
  split
  · change (partialLatestTurnPlan [] kept tokenBudget minTail).archiveMessages = []
    unfold partialLatestTurnPlan
    change [] ++ (if (take (firstRetainedStep (some a)
      (latest.steps.drop first) tokenBudget minTail) _).flatten.isEmpty
        then [] else _) = []
    rw [firstRetainedStep_again]
    rfl
  · rfl

/-- Planning again what a plan kept archives nothing. -/
theorem planRetention_again (messages : List Message)
    (keep tokenBudget minTail : Nat) :
    (planRetention
      (planRetention messages keep tokenBudget minTail).retainedMessages
      keep tokenBudget minTail).archiveMessages = [] := by
  rcases planRetention_cases messages keep tokenBudget minTail with hall |
    ⟨latest, hlast, hkeep, ⟨_, _, hall⟩ | ⟨a, older, _, hanchor, hturns, hplan⟩ |
      ⟨older, hwithin, _, hplan⟩⟩
  · rw [hall]
    rfl
  · rw [hall]
    rfl
  · rw [hplan]
    exact partialLatestTurnPlan_again hkeep hturns hanchor
  · rw [hplan]
    change (planRetention (flattenTurns _) keep tokenBudget minTail).archiveMessages
      = []
    unfold planRetention
    rw [buildTurns_window]
    dsimp only
    rw [retainedWindow_again, hlast]
    dsimp only
    split
    · next hnone =>
        rcases (Bool.or_eq_true _ _).mp hnone with hnil | hzero
        · rw [isEmpty_iff.mp hnil] at hlast
          cases hlast
        · exact absurd (beq_iff_eq.mp hzero) hkeep
    · rw [if_neg (Nat.not_lt_of_ge hwithin), Nat.sub_self]
      rfl

end Session
end OpenViking
