import OpenViking.Session.Retention

/-!
# What a plan keeps and what it archives

A plan either cuts between two turns, or inside the newest turn between two of
its steps.  In the second case the query stays on both sides.
-/

namespace OpenViking
namespace Session

open List UserTurn Nat

/-- The budget of the raw steps, with the reserve of the checkpoint taken off. -/
def rawBudget (tokenBudget : Nat) : Nat :=
  tokenBudget - min checkpointTokenReserve (tokenBudget / 4)

structure CutsBetweenTurns (messages : List Message) (plan : RetentionPlan)
    (older kept : List UserTurn) : Prop where
  turns : buildTurns messages = older ++ kept
  archive : plan.archiveMessages = flattenTurns older
  retained : plan.retainedMessages = flattenTurns kept
  covers : messages = plan.archiveMessages ++ plan.retainedMessages
  checkpoint : plan.checkpointSourceMessageIds = []
  whole : plan.partialTurn = false

/-- The steps `back` are the longest tail within the budget of the raw steps, but
never fewer than the least number of steps. -/
structure LongestTail (anchor : Message) (steps back : List AssistantStep)
    (budget least : Nat) : Prop where
  tail : back <:+ steps
  enough : min steps.length least ≤ back.length
  fits : back.length = min steps.length least ∨
    anchor.estimatedTokens + messageTokens back.flatten ≤ budget
  longest : forall longer : List AssistantStep, longer <:+ steps ->
    (longer.length ≤ least ∨
      anchor.estimatedTokens + messageTokens longer.flatten ≤ budget) ->
    longer.length ≤ back.length

/-- The plan cuts the newest turn between the steps `front` and `back`. -/
structure CutsNewestTurn (messages : List Message) (plan : RetentionPlan)
    (budget least : Nat) (older : List UserTurn) (anchor : Message)
    (front back : List AssistantStep) : Prop where
  turns : buildTurns messages =
    older ++ [{ anchor := some anchor, steps := front ++ back }]
  archive : plan.archiveMessages = flattenTurns older ++ anchor :: front.flatten
  retained : plan.retainedMessages = anchor :: back.flatten
  covers : messages = plan.archiveMessages ++ back.flatten
  anchorKept : plan.turnAnchor = some anchor
  longest : LongestTail anchor (front ++ back) back (rawBudget budget) least
  checkpoint : plan.checkpointSourceMessageIds = ids front.flatten
  cut : plan.partialTurn = true

/-- The steps of all turns, in order. -/
def allSteps (messages : List Message) : List AssistantStep :=
  (buildTurns messages).flatMap UserTurn.steps

/-- The oldest steps are whole in the archive, the others whole in what stays. -/
def KeepsStepsWhole (messages : List Message) (plan : RetentionPlan) : Prop :=
  exists before after, allSteps messages = before ++ after ∧
    (forall step, step ∈ before -> step <:+: plan.archiveMessages) ∧
    forall step, step ∈ after -> step <:+: plan.retainedMessages

/-!
# The greedy tail

Taking steps while the budget lasts gives the longest tail the budget takes,
because no step takes fewer than no tokens.
-/

theorem messageTokens_flatten_reverse (steps : List AssistantStep) :
    messageTokens steps.reverse.flatten = messageTokens steps.flatten := by
  induction steps with
  | nil => rfl
  | cons step rest ih =>
    have hback : (step :: rest).reverse.flatten = rest.reverse.flatten ++ step := by
      simp
    rw [hback, messageTokens_append, ih, flatten_cons, messageTokens_append,
      add_comm]

theorem stepsWithin_fits (budget tokens : Nat) (steps : List AssistantStep) :
    stepsWithin budget tokens steps = 0 ∨
      tokens + messageTokens
        (steps.take (stepsWithin budget tokens steps)).flatten ≤ budget := by
  induction steps generalizing tokens with
  | nil => exact .inl rfl
  | cons step rest ih =>
    rw [stepsWithin]
    split
    · exact .inl rfl
    · next hfits =>
        apply Or.inr
        rw [take_succ_cons, flatten_cons, messageTokens_append]
        rcases ih (tokens + messageTokens step) with hzero | hmore
        · rw [hzero, take_zero]
          exact Nat.le_of_not_lt hfits
        · rw [← Nat.add_assoc]
          exact hmore

variable {steps : List AssistantStep}

theorem stepsWithin_longest {budget tokens : Nat}
    {count : Nat} (hcount : count ≤ steps.length)
    (hfits : tokens + messageTokens (steps.take count).flatten ≤ budget) :
    count ≤ stepsWithin budget tokens steps := by
  induction steps generalizing tokens count with
  | nil => exact hcount
  | cons step rest ih =>
    cases count with
    | zero => exact zero_le _
    | succ count =>
      rw [take_succ_cons, flatten_cons, messageTokens_append,
        ← add_assoc] at hfits
      have hstep : ¬ tokens + messageTokens step > budget :=
        not_lt_of_ge (le_trans (le_add_right _ _) hfits)
      rw [stepsWithin, if_neg hstep]
      exact succ_le_succ (ih (le_of_succ_le_succ hcount) hfits)

theorem messageTokens_drop {start k : Nat}
    (hk : k ≤ start) (hstart : start ≤ steps.length) :
    messageTokens (steps.drop k).flatten =
      messageTokens (steps.drop start).flatten +
        messageTokens ((steps.take start).reverse.take (start - k)).flatten := by
  have hsplit : steps.drop k = (steps.take start).drop k ++ steps.drop start := by
    calc steps.drop k
        = (steps.take start ++ steps.drop start).drop k := by
          rw [take_append_drop]
      _ = (steps.take start).drop k ++ steps.drop start := by
          apply drop_append_of_le_length
          rw [length_take]
          omega
  have htake : (steps.take start).reverse.take (start - k) =
      ((steps.take start).drop k).reverse := by
    have hlength : (steps.take start).length = start := by
      rw [length_take]
      exact min_eq_left hstart
    rw [take_reverse, hlength]
    congr 2
    omega
  rw [hsplit, flatten_append, messageTokens_append, htake,
    messageTokens_flatten_reverse, add_comm]

theorem firstRetainedStep_tail (anchor : Message) (steps : List AssistantStep)
    (tokenBudget minRawTailSteps : Nat) :
    LongestTail anchor steps
      (steps.drop (firstRetainedStep (some anchor) steps tokenBudget
        minRawTailSteps))
      (rawBudget tokenBudget) (max 1 minRawTailSteps) := by
  let least := max 1 minRawTailSteps
  let start := steps.length - least
  let tokens := messageTokens [anchor] + messageTokens (steps.drop start).flatten
  let more := stepsWithin (rawBudget tokenBudget) tokens (steps.take start).reverse
  have hfirst : firstRetainedStep (some anchor) steps tokenBudget minRawTailSteps =
      start - more := by
    unfold firstRetainedStep
    cases steps with
    | nil => exact (Nat.zero_sub _).trans ((congrArg (· - more)
        (Nat.zero_sub least)).trans (Nat.zero_sub more)).symm
    | cons => rfl
  have hmore : more ≤ start := by
    have hle := stepsWithin_le (rawBudget tokenBudget) tokens
      (steps.take start).reverse
    rw [length_reverse, length_take] at hle
    exact Nat.le_trans hle (Nat.min_le_left _ _)
  have hanchor : messageTokens [anchor] = anchor.estimatedTokens := by
    simp [messageTokens]
  have hlength : (steps.drop (start - more)).length =
      min steps.length least + more := by
    rw [length_drop]
    omega
  rw [hfirst]
  constructor
  · exact drop_suffix _ _
  · rw [hlength]
    exact Nat.le_add_right _ _
  · rw [hlength]
    rcases stepsWithin_fits (rawBudget tokenBudget) tokens
      (steps.take start).reverse with hzero | hfits
    · exact .inl (congrArg (min steps.length least + ·) hzero)
    · apply Or.inr
      rw [messageTokens_drop (Nat.sub_le start more) (Nat.sub_le _ _),
        ← Nat.add_assoc, ← hanchor, Nat.sub_sub_self hmore]
      exact hfits
  · rintro longer ⟨front, hfront⟩ hallowed
    rw [hlength]
    by_cases hless : longer.length ≤ min steps.length least
    · exact Nat.le_trans hless (Nat.le_add_right _ _)
    have htotal : front.length + longer.length = steps.length := by
      rw [← hfront, length_append]
    have hdrop : longer = steps.drop front.length := by
      rw [← hfront, drop_left]
    have hk : front.length ≤ start := by omega
    have hwithin : anchor.estimatedTokens + messageTokens longer.flatten ≤
        rawBudget tokenBudget := by
      rcases hallowed with hleast | hfits
      · omega
      · exact hfits
    rw [hdrop, messageTokens_drop hk (Nat.sub_le _ _), ← hanchor,
      ← Nat.add_assoc] at hwithin
    have hcount : start - front.length ≤ (steps.take start).reverse.length := by
      rw [length_reverse, length_take]
      omega
    have hmost := stepsWithin_longest hcount hwithin
    change start - front.length ≤ more at hmost
    omega

/-!
# The two cuts
-/

theorem steps_infix_messages {turns : List UserTurn} {step : AssistantStep}
    (h : step ∈ turns.flatMap UserTurn.steps) : step <:+: flattenTurns turns := by
  rcases mem_flatMap.mp h with ⟨turn, hturn, hstep⟩
  rcases append_of_mem hturn with ⟨before, after, hturns⟩
  rcases append_of_mem hstep with ⟨front, back, hsteps⟩
  refine ⟨flattenTurns before ++ (turn.anchor.toList ++ front.flatten),
    back.flatten ++ flattenTurns after, ?_⟩
  rw [hturns, flattenTurns_append, flattenTurns, flattenTurns, flattenTurns,
    flatMap_cons, UserTurn.messages, hsteps]
  simp

theorem step_infix_flatten {step : AssistantStep}
    (h : step ∈ steps) : step <:+: steps.flatten := by
  rcases append_of_mem h with ⟨front, back, hsteps⟩
  refine ⟨front.flatten, back.flatten, ?_⟩
  rw [hsteps]
  simp

variable {messages : List Message}

variable {older : List UserTurn}

theorem CutsBetweenTurns.wholeSteps {plan : RetentionPlan}
    {kept : List UserTurn} (h : CutsBetweenTurns messages plan older kept) :
    KeepsStepsWhole messages plan := by
  refine ⟨older.flatMap steps, kept.flatMap steps, ?_, ?_, ?_⟩
  · rw [allSteps, h.turns, flatMap_append]
  · intro step hstep
    rw [h.archive]
    exact steps_infix_messages hstep
  · intro step hstep
    rw [h.retained]
    exact steps_infix_messages hstep

theorem CutsNewestTurn.wholeSteps {plan : RetentionPlan}
    {budget least : Nat} {anchor : Message}
    {front back : List AssistantStep}
    (h : CutsNewestTurn messages plan budget least older anchor front back) :
    KeepsStepsWhole messages plan := by
  refine ⟨older.flatMap steps ++ front, back, ?_, ?_, ?_⟩
  · rw [allSteps, h.turns, flatMap_append]
    simp
  · intro step hstep
    rw [h.archive]
    rcases mem_append.mp hstep with holder | hfront
    · exact (steps_infix_messages holder).trans (prefix_append _ _).isInfix
    · have hinfix := step_infix_flatten hfront
      have hsuffix : front.flatten <:+
          flattenTurns older ++ anchor :: front.flatten :=
        (suffix_cons anchor _).trans (suffix_append _ _)
      exact hinfix.trans hsuffix.isInfix
  · intro step hstep
    rw [h.retained]
    exact (step_infix_flatten hstep).trans (suffix_cons anchor _).isInfix

theorem cutsBetweenTurns_wholePlan
    {kept : List UserTurn} (hturns : buildTurns messages = older ++ kept)
    (tokens : Nat) :
    CutsBetweenTurns messages
      (wholePlan (flattenTurns older) (flattenTurns kept) tokens) older kept := by
  constructor
  · exact hturns
  · rfl
  · rfl
  · show messages = flattenTurns older ++ flattenTurns kept
    rw [← flattenTurns_append, ← hturns, buildTurns_flatten]
  · rfl
  · rfl

theorem cutsBetweenTurns_all (messages : List Message) :
    CutsBetweenTurns messages (wholePlan messages [] 0) (buildTurns messages) [] := by
  have hcuts := cutsBetweenTurns_wholePlan
    (append_nil (buildTurns messages)).symm 0
  rw [buildTurns_flatten] at hcuts
  exact hcuts

/-- The steps that leave the turn are those in front of the first that stays. -/
theorem partialLatestTurnPlan_cuts {latest : UserTurn} {a : Message}
    (hturns : buildTurns messages = older ++ [latest])
    (hanchor : latest.anchor = some a) (tokenBudget minTail : Nat) :
    CutsBetweenTurns messages
        (partialLatestTurnPlan older latest tokenBudget minTail) older [latest] ∨
      exists front back, CutsNewestTurn messages
        (partialLatestTurnPlan older latest tokenBudget minTail) tokenBudget
        (max 1 minTail) older a front back := by
  have hmessages : messages = flattenTurns older ++ a :: latest.steps.flatten := by
    rw [← buildTurns_flatten messages, hturns, flattenTurns_append,
      flattenTurns_singleton, UserTurn.messages, hanchor]
    rfl
  have htail := firstRetainedStep_tail a latest.steps tokenBudget minTail
  unfold partialLatestTurnPlan
  rw [hanchor]
  dsimp only
  generalize firstRetainedStep (some a) latest.steps tokenBudget minTail = first
    at htail
  have hsteps : latest.steps.flatten =
      (latest.steps.take first).flatten ++ (latest.steps.drop first).flatten := by
    rw [← flatten_append, take_append_drop]
  cases hsource : (latest.steps.take first).flatten with
  | nil =>
    apply Or.inl
    rw [hsource, nil_append] at hsteps
    constructor
    · exact hturns
    · show flattenTurns older ++ [] = flattenTurns older
      rw [append_nil]
    · show a :: _ = _
      rw [flattenTurns_singleton, UserTurn.messages, hanchor, hsteps]
      rfl
    · show messages = (flattenTurns older ++ []) ++ a :: _
      rw [hmessages, hsteps, append_nil]
      rfl
    · rfl
    · rfl
  | cons m rest =>
    refine .inr ⟨latest.steps.take first, latest.steps.drop first, ?_⟩
    rw [← hsource]
    constructor
    · rw [hturns, take_append_drop]
      congr 2
      cases latest
      cases hanchor
      rfl
    · show _ ++ (if _ then _ else _) = _
      rw [if_neg (by rw [hsource]; exact Bool.false_ne_true)]
      rfl
    · rfl
    · show messages = (_ ++ (if _ then _ else _)) ++ _
      rw [if_neg (by rw [hsource]; exact Bool.false_ne_true), hmessages, hsteps]
      simp
    · rfl
    · rw [take_append_drop]
      exact htail
    · rfl
    · show (!(latest.steps.take first).flatten.isEmpty) = true
      rw [hsource]
      rfl

/-- What stays is counted, and is over the budget exactly when the plan says so. -/
def CountsTokens (plan : RetentionPlan) (tokenBudget : Nat) : Prop :=
  plan.estimatedActiveTokens = messageTokens plan.retainedMessages ∧
    (plan.budgetExceeded = true <-> tokenBudget < messageTokens plan.retainedMessages)

theorem messageTokens_turns (turns : List UserTurn) :
    messageTokens (flattenTurns turns) = (turns.map estimatedTokens).sum := by
  induction turns with
  | nil => rfl
  | cons turn rest ih =>
    rw [flattenTurns, flatMap_cons, messageTokens_append, map_cons,
      sum_cons, ← ih]
    rfl

theorem retainedWindow_within {turns : List UserTurn} {keep tokenBudget : Nat}
    {latest : UserTurn}
    (hlast : (retainedWindow turns keep tokenBudget).getLast? = some latest)
    (hlatest : latest.estimatedTokens ≤ tokenBudget) :
    messageTokens (flattenTurns (retainedWindow turns keep tokenBudget)) ≤
      tokenBudget := by
  rw [messageTokens_turns]
  rcases evictOldest_within tokenBudget (turns.drop (turns.length - keep)) with
    hone | hsum
  · change (retainedWindow turns keep tokenBudget).length ≤ 1 at hone
    generalize retainedWindow turns keep tokenBudget = window at hlast hone ⊢
    match window with
    | [] => exact zero_le _
    | [turn] =>
      cases hlast
      simpa using hlatest
    | _ :: _ :: _ => simp at hone
  · exact hsum

theorem countsTokens_none (archive : List Message) (tokenBudget : Nat) :
    CountsTokens (wholePlan archive [] 0) tokenBudget := by
  refine ⟨rfl, ?_⟩
  constructor
  · nofun
  · intro h
    exact absurd h (not_lt_zero tokenBudget)

theorem countsTokens_within {archive retained : List Message} {tokenBudget : Nat}
    (h : messageTokens retained ≤ tokenBudget) :
    CountsTokens (wholePlan archive retained (messageTokens retained))
      tokenBudget := by
  refine ⟨rfl, ?_⟩
  constructor
  · nofun
  · intro hover
    exact absurd h (not_le_of_gt hover)

theorem countsTokens_partial (older : List UserTurn) (latest : UserTurn)
    (tokenBudget minTail : Nat) :
    CountsTokens (partialLatestTurnPlan older latest tokenBudget minTail)
      tokenBudget := by
  refine ⟨rfl, ?_⟩
  exact decide_eq_true_iff

/-- Every plan cuts the messages once, between two turns or between two steps of
the newest turn, keeps every step whole and counts what stays. -/
theorem planRetention_partitions (messages : List Message)
    (keepRecentTurnCount tokenBudget minRawTailSteps : Int) :
    let plan := planRetention messages keepRecentTurnCount.toNat tokenBudget.toNat
      minRawTailSteps.toNat
    ((exists older kept, CutsBetweenTurns messages plan older kept) ∨
      exists older anchor front back, CutsNewestTurn messages plan
        tokenBudget.toNat (max 1 minRawTailSteps.toNat) older anchor front back) ∧
    KeepsStepsWhole messages plan ∧ CountsTokens plan tokenBudget.toNat := by
  intro plan
  rcases planRetention_cases messages keepRecentTurnCount.toNat tokenBudget.toNat
      minRawTailSteps.toNat with hall |
    ⟨latest, hlast, _, ⟨_, _, hall⟩ | ⟨a, older, _, hanchor, hturns, hplan⟩ |
      ⟨older, hwithin, hturns, hplan⟩⟩
  · have hcuts := cutsBetweenTurns_all messages
    rw [← hall] at hcuts
    refine ⟨.inl ⟨_, _, hcuts⟩, hcuts.wholeSteps, ?_⟩
    rw [show plan = _ from hall]
    exact countsTokens_none messages _
  · have hcuts := cutsBetweenTurns_all messages
    rw [← hall] at hcuts
    refine ⟨.inl ⟨_, _, hcuts⟩, hcuts.wholeSteps, ?_⟩
    rw [show plan = _ from hall]
    exact countsTokens_none messages _
  · have hcuts := partialLatestTurnPlan_cuts hturns hanchor tokenBudget.toNat
      minRawTailSteps.toNat
    have hcounts := countsTokens_partial older latest tokenBudget.toNat
      minRawTailSteps.toNat
    rw [← hplan] at hcuts hcounts
    rcases hcuts with hbetween | ⟨front, back, hnewest⟩
    · exact ⟨.inl ⟨_, _, hbetween⟩, hbetween.wholeSteps, hcounts⟩
    · exact ⟨.inr ⟨_, _, _, _, hnewest⟩, hnewest.wholeSteps, hcounts⟩
  · have hcuts := cutsBetweenTurns_wholePlan hturns
      (messageTokens (flattenTurns (retainedWindow (buildTurns messages)
        keepRecentTurnCount.toNat tokenBudget.toNat)))
    rw [← hplan] at hcuts
    refine ⟨.inl ⟨_, _, hcuts⟩, hcuts.wholeSteps, ?_⟩
    rw [show plan = _ from hplan]
    exact countsTokens_within (retainedWindow_within hlast hwithin)

end Session
end OpenViking
