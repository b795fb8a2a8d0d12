import OpenViking.Common.OrderedMap
import OpenViking.Common.Segments
import OpenViking.Common.Text

/-!
# The history of knowledge mining

The jobs of the history are made from the compile tasks of the server and are
merged into the jobs that are stored.  Numbers are only compared with zero, so
their type is a parameter.
-/

namespace OpenViking
namespace Mining

open Text OrderedMap

inductive CompileStatus where
  | accepted
  | running
  | committing
  | cancelling
  | completed
  | failed
  | cancelled
deriving DecidableEq

/-- A result is passed on whole; the rest of it is not read. -/
structure CompileResult where
  mainView : Bool
  rest : Text
deriving DecidableEq

structure CompileTaskHistoryItem where
  createdAt : Text
  /-- The code and the message of an error. -/
  error : Option (Text × Text)
  result : Option CompileResult
  stage : Text
  status : CompileStatus
  taskId : Text
  updatedAt : Text
  /-- The request, from here on. -/
  sources : List Text
  okfConfig : Option Text
  reason : Text
  skill : Text
  target : Text
deriving DecidableEq

/-- The phase `partial` is `partlyDone` here. -/
inductive MiningPhase where
  | idle
  | preparing
  | uploading
  | queued
  | compilingDocuments
  | partlyDone
  | completed
  | failed
  | cancelled
deriving DecidableEq

inductive FileStatus where
  | pending
  | uploading
  | processing
  | completed
  | failed
deriving DecidableEq

structure FileProgress (number : Type) where
  name : Text
  percent : number
  status : FileStatus
deriving DecidableEq

inductive Origin where
  | cli
  | imported
  | studio
deriving DecidableEq

structure MiningJob (number : Type) where
  createdAt : Text
  documentFiles : List (FileProgress number)
  documentSourceUri : Text
  documentTaskId : Option Text
  error : Option Text
  id : Text
  okfConfigUri : Option Text
  origin : Origin
  phase : MiningPhase
  reason : Text
  result : Option CompileResult
  skillUri : Option Text
  targetUri : Text
  taskId : Option Text
  updatedAt : Text
  runId : Option Text
  windowByteLimit : Option number
  windowCount : Option number
  windowFileLimit : Option number
  windowPageLimit : Option number
  windowProbeLimit : Option number
  windowIndex : Option number
  windowLogUri : Option Text
  windowSizeBytes : Option number
  oversizedSingleton : Option Bool
  windowPdfPages : Option number
  windowEstimatedProbes : Option number
deriving DecidableEq

/-! ## The jobs of the server -/

def knowledgeMiningRoot : Text :=
  "viking://resources/knowledge-mining/".toList

/-- Cut a last segment off, with or without a slash behind it. -/
def dropSegment (fold : Char -> Char) (segment text : Text) : Text :=
  if (segment.map fold).isSuffixOf (text.map fold) then
    text.rdrop segment.length
  else if (segment.map fold ++ ['/']).isSuffixOf (text.map fold) then
    text.rdrop (segment.length + 1)
  else text

def lastSegment (text : Text) : Option Text :=
  (Segments.segments '/' text).getLast?

def jobIdForTarget (targetUri : Text) : Text :=
  if knowledgeMiningRoot.isPrefixOf targetUri then
    (lastSegment (dropSegment id "/wiki".toList targetUri)).getD targetUri
  else "cli:".toList ++ targetUri

/-- The digits of a window at the front of a text. -/
def windowAt (text : Text) : Option Text :=
  if "/windows/".toList.isPrefixOf text then
    let rest := text.drop 9
    let digits := rest.takeWhile Char.isDigit
    if 4 ≤ digits.length ∧
        "/document-sources".toList.isPrefixOf (rest.drop digits.length) then
      some digits
    else none
  else none

def windowMatch : Text -> Option Text
  | [] => none
  | c :: rest => (windowAt (c :: rest)).or (windowMatch rest)

namespace CompileTaskHistoryItem

variable (task : CompileTaskHistoryItem)

def isStudioTask : Bool :=
  knowledgeMiningRoot.isPrefixOf task.target

def isLlmWikiTask : Bool :=
  lastSegment (dropSegment Char.toLower "/SKILL.md".toList task.skill) =
    some "llm-wiki".toList || task.result.any CompileResult.mainView

def source : Text :=
  task.sources.head?.getD []

def groupingKey : Text :=
  match windowMatch task.source with
  | some digits => task.target ++ "#window-".toList ++ digits
  | none => task.target

def phase : MiningPhase :=
  match task.status with
  | .failed => .failed
  | .cancelled => .cancelled
  | .completed =>
    if task.stage = "salvaged".toList then .partlyDone
    else .completed
  | _ => .compilingDocuments

def errorText : Option Text :=
  task.error.map fun (code, message) => code ++ ": ".toList ++ message

end CompileTaskHistoryItem

def accepted (tasks : List CompileTaskHistoryItem) :
    List CompileTaskHistoryItem :=
  tasks.filter fun task => task.isStudioTask || task.isLlmWikiTask

abbrev Group := Text × List CompileTaskHistoryItem

def Group.join (current new : Group) : Group :=
  (current.1, current.2 ++ new.2)

def grouped (tasks : List CompileTaskHistoryItem) : List Group :=
  updateAll Prod.fst Group.join []
    (tasks.map fun task => (task.groupingKey, [task]))

section Jobs

/-! The number that a window's digits stand for is `toNumber`. -/

variable {number : Type} [Zero number] [One number] (toNumber : Text -> number)

/-- The job of the first and the latest task of a group. -/
def jobOf (group : List CompileTaskHistoryItem)
    (first latest : CompileTaskHistoryItem) : MiningJob number :=
  let root :=
    if latest.isStudioTask then dropSegment id "/wiki".toList latest.target
    else latest.target
  let window := windowMatch first.source
  let runId := jobIdForTarget latest.target
  { createdAt := first.createdAt
    documentFiles := []
    documentSourceUri :=
      if first.source = [] then root ++ "/document-sources".toList
      else first.source
    documentTaskId := some latest.taskId
    error := latest.errorText
    id := window.elim runId fun digits => runId ++ "-w".toList ++ digits
    okfConfigUri := latest.okfConfig.filter (· ≠ [])
    origin := if latest.isStudioTask then .studio else .cli
    phase := latest.phase
    reason := first.reason
    result := latest.result.or (group.reverse.findSome? fun task => task.result)
    skillUri := some latest.skill
    targetUri := latest.target
    taskId := some latest.taskId
    updatedAt := latest.updatedAt
    runId := some runId
    windowByteLimit := some 0
    windowCount := some 1
    windowFileLimit := some 0
    windowPageLimit := some 0
    windowProbeLimit := some 0
    windowIndex := some (window.elim 1 toNumber)
    windowLogUri := some (window.elim [] fun digits =>
      root ++ "/logs/windows/".toList ++ digits ++ ".json".toList)
    windowSizeBytes := some 0
    oversizedSingleton := some false
    windowPdfPages := some 0
    windowEstimatedProbes := some 0 }

def jobOfGroup (group : List CompileTaskHistoryItem) :
    Option (MiningJob number) :=
  match group.head?, group.getLast? with
  | some first, some latest => some (jobOf toNumber group first latest)
  | _, _ => none

end Jobs

section Collated

/-! A text is compared with another by what `collate` gives for them. -/

variable {order : Type} [LinearOrder order] (collate : Text -> order)

/-- The comparison by a value. -/
def LeBy {item : Type} (f : item -> order) (left right : item) : Prop :=
  f left ≤ f right

instance {item : Type} (f : item -> order) : DecidableRel (LeBy f) := fun _ _ =>
  inferInstanceAs (Decidable (_ ≤ _))

instance {item : Type} (f : item -> order) : Std.Total (LeBy f) :=
  ⟨fun _ _ => le_total _ _⟩

instance {item : Type} (f : item -> order) : IsTrans item (LeBy f) :=
  ⟨fun _ _ _ => le_trans⟩

abbrev Older : CompileTaskHistoryItem -> CompileTaskHistoryItem -> Prop :=
  LeBy fun task => collate task.createdAt

variable {number : Type} [Zero number]

def jobsFromCompileTasks [One number] (toNumber : Text -> number)
    (tasks : List CompileTaskHistoryItem) : List (MiningJob number) :=
  (grouped (accepted tasks)).filterMap fun group =>
    jobOfGroup toNumber (group.2.insertionSort (Older collate))

/-! ## Merging -/

/-- The `||` of the source, for the values that count as missing. -/
def either {value : Type} [DecidableEq value] (missing : List value)
    (left right : value) : value :=
  if left ∈ missing then right else left

variable [DecidableEq number]

def mergeJob (localJob server : MiningJob number) : MiningJob number :=
  let nonzero := either [none, some 0]
  { server with
    documentFiles := localJob.documentFiles
    reason := either [[]] localJob.reason server.reason
    result := either [none] server.result localJob.result
    runId := either [none, some []] localJob.runId server.runId
    windowByteLimit := nonzero localJob.windowByteLimit server.windowByteLimit
    windowCount := nonzero localJob.windowCount server.windowCount
    windowFileLimit := nonzero localJob.windowFileLimit server.windowFileLimit
    windowPageLimit := nonzero localJob.windowPageLimit server.windowPageLimit
    windowProbeLimit := nonzero localJob.windowProbeLimit server.windowProbeLimit
    windowIndex := nonzero localJob.windowIndex server.windowIndex
    windowLogUri :=
      either [none, some []] localJob.windowLogUri server.windowLogUri
    windowSizeBytes := nonzero localJob.windowSizeBytes server.windowSizeBytes
    oversizedSingleton :=
      either [none, some false] localJob.oversizedSingleton
        server.oversizedSingleton
    windowPdfPages := nonzero localJob.windowPdfPages server.windowPdfPages
    windowEstimatedProbes :=
      nonzero localJob.windowEstimatedProbes server.windowEstimatedProbes }

abbrev Newer : MiningJob number -> MiningJob number -> Prop :=
  LeBy fun job => OrderDual.toDual (collate job.createdAt)

def merged (localJobs serverJobs : List (MiningJob number)) :
    List (MiningJob number) :=
  updateAll MiningJob.id mergeJob
    (updateAll MiningJob.id (fun _ job => job) [] localJobs) serverJobs

def mergeMiningJobs (localJobs serverJobs : List (MiningJob number)) :
    List (MiningJob number) :=
  ((merged localJobs serverJobs).insertionSort (Newer collate)).take 1000

end Collated
end Mining
end OpenViking
