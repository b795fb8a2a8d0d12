import OpenViking.Session.Retention
import OpenViking.Session.TokenEstimation
import Mathlib.Data.List.Sort
import Mathlib.Logic.Function.Basic

/-!
# Fitting the active messages to a budget

The messages that a session shows are chosen under a hard budget of tokens: the
newest query, its last step, checkpoints, further steps, older turns.  The first
three may be shortened, the others stay raw.  Nothing is changed in the messages
themselves, a shortened one is a copy.
-/

namespace OpenViking
namespace Session
namespace Active

open Text Bisection

variable {Id : Type} [LinearOrder Id]

/-- A tool call with its result; an input that is absent has the empty text. -/
structure ToolPart where
  toolId : Text
  toolName : Text
  toolInput : Text
  toolOutput : Text
  toolOutputTruncated : Bool
  toolOutputOriginalChars : Option Nat
  toolOutputPreviewChars : Option Nat
deriving DecidableEq

inductive Part where
  | text (content : Text)
  | context (uri abstract : Text)
  | image (url : Text)
  | tool (part : ToolPart)
deriving DecidableEq

structure Message (Id : Type) where
  id : Id
  role : Role
  messageKind : Option MessageKind
  parts : List Part
deriving DecidableEq

/-- The text of a part that the estimate counts. -/
def Part.tokenText : Part -> Text
  | .text content => content
  | .context _ abstract => abstract
  | .image _ => []
  | .tool part =>
    part.toolId ++ part.toolName ++ part.toolInput ++ part.toolOutput

variable (message : Message Id)

def Message.estimatedTokens : Nat :=
  estimateTextTokens (message.parts.flatMap Part.tokenText)

variable (messages : List (Message Id))

def messageTokens : Nat :=
  (messages.map Message.estimatedTokens).sum

def ids : List Id :=
  messages.map Message.id

/-!
# Shortening a group

The bodies of all parts are cleared, then the tool inputs as far as needed, and
then the bodies are filled again, the newest first.
-/

def Part.body : Part -> Option Text
  | .text content => some content
  | .context _ abstract => some abstract
  | .image _ => none
  | .tool part => some part.toolOutput

def Part.setBody (body : Text) : Part -> Part
  | .text _ => .text body
  | .context uri _ => .context uri body
  | .image url => .image url
  | .tool part => .tool { part with toolOutput := body }

def Part.toolInput : Part -> Text
  | .tool part => part.toolInput
  | _ => []

def Part.clearInput : Part -> Part
  | .tool part => .tool { part with toolInput := [] }
  | part => part

def Message.withParts (parts : List Part) : Message Id :=
  { message with parts := parts }

def Message.clearBodies : Message Id :=
  message.withParts (message.parts.map (Part.setBody []))

/-- Clears inputs from the oldest part on, until the message fits. -/
def clearPartInputs (fits : List Part -> Bool) (front : List Part) :
    List Part -> List Part
  | [] => front
  | part :: rest =>
    if part.toolInput = [] then clearPartInputs fits (front ++ [part]) rest
    else if fits (front ++ part.clearInput :: rest) then
      front ++ part.clearInput :: rest
    else clearPartInputs fits (front ++ [part.clearInput]) rest

/-- Clears inputs from the oldest message on, until the group fits. -/
def clearInputs (budget : Nat) (front : List (Message Id)) :
    List (Message Id) -> List (Message Id)
  | [] => front
  | message :: rest =>
    let cleared := message.withParts (clearPartInputs
      (fun parts => messageTokens (front ++ message.withParts parts :: rest) ≤ budget)
      [] message.parts)
    if messageTokens (front ++ cleared :: rest) ≤ budget then front ++ cleared :: rest
    else clearInputs budget (front ++ [cleared]) rest

/-- A body that gets no room stays empty. -/
def fillPart (remaining : Nat) (original cleared : Part) : Part :=
  match original.body with
  | none => cleared
  | some body =>
    if body = [] ∨ remaining = 0 then cleared
    else cleared.setBody (truncateTextToTokenBudget body remaining)

/-- Fills the parts behind one before the part itself. -/
def fillParts (remaining : List Part -> Nat) (front : List Part) :
    List (Part × Part) -> List Part
  | [] => []
  | (original, cleared) :: rest =>
    let done := fillParts remaining (front ++ [cleared]) rest
    fillPart (remaining (front ++ cleared :: done)) original cleared :: done

/-- Fills the messages behind one before the message itself. -/
def fillMessages (budget : Nat) (front : List (Message Id)) :
    List (Message Id × Message Id) -> List (Message Id)
  | [] => []
  | (original, cleared) :: rest =>
    let done := fillMessages budget (front ++ [cleared]) rest
    cleared.withParts (fillParts
      (fun parts => budget - messageTokens (front ++ cleared.withParts parts :: done))
      [] (original.parts.zip cleared.parts)) :: done

/-- Notes on a tool result that it is a preview. -/
def stampPart (original filled : Part) : Part :=
  match filled with
  | .tool part =>
    if original.body = filled.body then filled
    else .tool { part with
      toolOutputTruncated := true
      toolOutputOriginalChars := some (part.toolOutputOriginalChars.getD
        ((original.body.getD []).length))
      toolOutputPreviewChars := some part.toolOutput.length }
  | _ => filled

def stampMessage (original filled : Message Id) : Message Id :=
  filled.withParts (List.zipWith stampPart original.parts filled.parts)

/-- Whether a body was shortened or an input taken away. -/
def shortened (original filled : Message Id) : Bool :=
  (original.parts.zip filled.parts).any fun pair =>
    pair.1.body ≠ pair.2.body || (pair.1.toolInput ≠ [] && pair.2.toolInput = [])

def shortenedIds (originals filled : List (Message Id)) : List Id :=
  ((originals.zip filled).filter fun pair => shortened pair.1 pair.2).map
    fun pair => pair.1.id

def truncateMessageGroup (tokenBudget : Nat) :
    List (Message Id) × List Id :=
  if tokenBudget = 0 ∨ messages = [] then ([], [])
  else if messageTokens messages ≤ tokenBudget then (messages, [])
  else
    let bare := messages.map Message.clearBodies
    let cloned := if messageTokens bare > tokenBudget then clearInputs tokenBudget [] bare
      else bare
    if messageTokens cloned > tokenBudget then ([], [])
    else
      let filled := fillMessages tokenBudget [] (messages.zip cloned)
      let returned := List.zipWith stampMessage messages filled
      if messageTokens returned > tokenBudget then ([], [])
      else (returned, shortenedIds messages filled)

/-!
# Choosing the messages

A message is known by its place, and a group is a list of places.
-/

def Part.kind : Part -> Session.Part
  | .text _ => Session.Part.text
  | .context _ _ => Session.Part.context
  | .image _ => Session.Part.image
  | .tool _ => Session.Part.tool

/-- What the grouping into turns reads of a message, under the message's place. -/
def outline (place : Nat) : Session.Message :=
  { id := place
    role := message.role
    messageKind := message.messageKind
    parts := message.parts.map Part.kind
    estimatedTokens := message.estimatedTokens }

def outlines : List Session.Message :=
  messages.zipIdx.map fun pair => outline pair.1 pair.2

def groupAt (group : List Nat) : List (Message Id) :=
  group.filterMap fun place => messages[place]?

/-- What was chosen so far. -/
structure Selection (Id : Type) where
  selected : Nat -> Option (Message Id)
  usedTokens : Nat
  truncatedIds : List Id

def Selection.none : Selection Id :=
  { selected := fun _ => Option.none, usedTokens := 0, truncatedIds := [] }

/-- Puts the chosen messages at their places. -/
def place (selected : Nat -> Option (Message Id)) :
    List (Nat × Message Id) -> Nat -> Option (Message Id)
  | [] => selected
  | (index, returned) :: rest =>
    place (Function.update selected index (some returned)) rest

/-- The tokens that a group may take. -/
def roomFor (tokenBudget : Nat) (selection : Selection Id) (maxBudget : Option Nat) :
    Nat :=
  (maxBudget.map (min (tokenBudget - selection.usedTokens))).getD
    (tokenBudget - selection.usedTokens)

/-- Chooses a group as a whole, shortened if that is allowed, or not at all. -/
def selectGroup (tokenBudget : Nat)
    (selection : Selection Id) (group : List Nat) (allowTruncate : Bool)
    (maxBudget : Option Nat) : Option (Selection Id) :=
  if group = [] then some selection
  else
    let remaining := roomFor tokenBudget selection maxBudget
    let originals := groupAt messages group
    let choose (chosen : List (Message Id)) (truncated : List Id) : Selection Id :=
      { selected := place selection.selected (group.zip chosen)
        usedTokens := selection.usedTokens + messageTokens chosen
        truncatedIds := selection.truncatedIds ++ truncated }
    if messageTokens originals > remaining then
      if allowTruncate = false ∨ remaining = 0 then none
      else
        let result := truncateMessageGroup originals remaining
        if result.1 = [] then none else some (choose result.1 result.2)
    else some (choose originals [])

/-- Chooses groups until one is not chosen. -/
def selectWhile (messages : List (Message Id)) (tokenBudget : Nat)
    (allowTruncate : Bool) : Selection Id -> List (List Nat) -> Selection Id
  | selection, [] => selection
  | selection, group :: rest =>
    match selectGroup messages tokenBudget selection group allowTruncate
      none with
    | none => selection
    | some chosen => selectWhile messages tokenBudget allowTruncate chosen rest

/-- The smallest budget for which a shortened group is chosen. -/
def minimumGroupBudget (tokenBudget : Nat) : Option Nat :=
  if messages = [] ∨ messageTokens messages = 0 then some 0
  else
    let high := min (messageTokens messages) tokenBudget
    firstPassing (fun candidate => (truncateMessageGroup messages candidate).1 ≠ [])
      high 1 high none

/-- The part of the budget that is set aside for the final step. -/
def finalReserve (anchor final : List (Message Id)) (tokenBudget : Nat) : Nat :=
  if anchor = [] ∨ final = [] then 0
  else
    match minimumGroupBudget anchor tokenBudget,
      minimumGroupBudget final tokenBudget with
    | some anchorMinimum, some finalMinimum =>
      if anchorMinimum + finalMinimum ≤ tokenBudget then
        min (messageTokens final)
          (min (max finalMinimum (tokenBudget / 2)) (tokenBudget - anchorMinimum))
      else 0
    | _, _ => 0

structure ActiveMessageBudgetPlan (Id : Type) where
  messages : List (Message Id)
  estimatedTokens : Nat
  droppedMessageIds : List Id
  truncatedMessageIds : List Id
deriving DecidableEq

/-- Ids in order, each once. -/
def sortedIds (ids : List Id) : List Id :=
  ids.dedup.insertionSort (· ≤ ·)

def isCheckpointStep (step : AssistantStep) : Bool :=
  step.any fun message => message.messageKind == some MessageKind.checkpoint

def anchorGroup (latest : UserTurn) : List Nat :=
  Session.ids latest.anchor.toList

def finalGroup (latest : UserTurn) : List Nat :=
  Session.ids (latest.steps.getLast?.getD [])

/-- Chooses from the newest turn and then from the older ones. -/
def selectTurns (tokenBudget : Nat)
    (older : List UserTurn) (latest : UserTurn) : Selection Id :=
  let reserve := finalReserve (groupAt messages (anchorGroup latest))
    (groupAt messages (finalGroup latest)) tokenBudget
  let anchored := (selectGroup messages tokenBudget Selection.none (anchorGroup latest)
    true (some (tokenBudget - reserve))).getD Selection.none
  let answered := (selectGroup messages tokenBudget anchored (finalGroup latest) true
    none).getD anchored
  let checkpoints := latest.steps.dropLast.filter isCheckpointStep
  let others := latest.steps.dropLast.reverse.filter fun step => !isCheckpointStep step
  let checked := selectWhile messages tokenBudget true answered
    (checkpoints.map Session.ids)
  let recent := selectWhile messages tokenBudget false checked (others.map Session.ids)
  selectWhile messages tokenBudget false recent
    (older.reverse.map fun turn => Session.ids turn.messages)

def fitActiveMessagesToBudget (tokenBudget : Nat) :
    ActiveMessageBudgetPlan Id :=
  if messages = [] ∨ tokenBudget = 0 then
    { messages := []
      estimatedTokens := 0
      droppedMessageIds := ids messages
      truncatedMessageIds := [] }
  else if messageTokens messages ≤ tokenBudget then
    { messages := messages
      estimatedTokens := messageTokens messages
      droppedMessageIds := []
      truncatedMessageIds := [] }
  else
    let turns := buildTurns (outlines messages)
    let selection := match turns.getLast? with
      | none => Selection.none
      | some latest => selectTurns messages tokenBudget turns.dropLast latest
    let returned := (List.range messages.length).filterMap selection.selected
    { messages := returned
      estimatedTokens := messageTokens returned
      droppedMessageIds := (messages.zipIdx.filter fun pair =>
        (selection.selected pair.2).isNone).map fun pair => pair.1.id
      truncatedMessageIds := sortedIds selection.truncatedIds }

end Active
end Session
end OpenViking
