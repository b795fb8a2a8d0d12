import OpenViking.Memfs.TreeKept

/-!
# What the memory file system stands for

The map of entries stands for a tree of directories and files.  A call is
refused, or has one effect on the tree, and the tree alone decides which.  A read
answers from the tree.
-/

namespace OpenViking
namespace Memfs

open Paths Assoc Function Option FileEntry

inductive Node where
  | dir
  | file (data : Bytes)
deriving DecidableEq

abbrev Nodes := Path -> Option Node

def FileEntry.node (e : FileEntry) : Node :=
  if e.isDir then .dir else .file e.data

def nodes (entries : Entries) : Nodes :=
  fun p => (get entries p).map FileEntry.node

/-- There is a directory for the path to stand in. -/
abbrev Inside (f : Nodes) (p : Path) : Prop :=
  p = [] ∨ f p.dropLast = some .dir

def inserted (f : Nodes) (p : Path) (node : Node) : Option Nodes :=
  if f p = none ∧ Inside f p then some (update f p (some node)) else none

/-- What a call makes of a file that the tree has. -/
def onFile (f : Nodes) (p : Path) (next : Bytes -> Option Nodes) : Option Nodes :=
  match f p with
  | some (.file old) => next old
  | _ => none

def written (f : Nodes) (p : Path) (change : Bytes -> Option Node) : Option Nodes :=
  onFile f p fun old => some (update f p (change old))

def writeEffect (f : Nodes) (p : Path) (data : Bytes) (offset : Nat) :
    WriteFlag -> Option Nodes
  | .create =>
    if f p = none then inserted f p (.file data)
    else written f p fun _ => some (.file data)
  | .createNew => inserted f p (.file data)
  | .truncate => written f p fun _ => some (.file data)
  | .append => written f p fun old => some (.file (old ++ data))
  | .none => written f p fun old => some (.file (writeAt offset data old))

def Call.effect (f : Nodes) : Call -> Option Nodes
  | create p => inserted f p (.file [])
  | mkdir p _ => inserted f p .dir
  | write p data offset flags => writeEffect f p data offset flags
  | remove p => written f p fun _ => none
  | removeAll p =>
    if f p = none then none else some fun q => if p <+: q then none else f q
  | rename old new =>
    if f old ≠ none ∧ f new = none ∧ Inside f new then
      some fun q =>
        if new <+: q then f (old ++ q.drop new.length)
        else if old <+: q then none
        else f q
    else none
  | replace src dst =>
    onFile f src fun data =>
      if Inside f dst ∧ f dst ≠ some .dir then
        some (update (update f src none) dst (some (.file data)))
      else none
  | truncate p size => written f p fun old => some (.file (resize size old))

/-- The tree after the calls that are not refused. -/
def replay (calls : List (SystemTime × Call)) (f : Nodes) : Nodes :=
  calls.foldl (fun f call => (call.2.effect f).getD f) f

/-- The bytes that `read` takes; size zero stands for all of them. -/
def slice (offset size : Nat) (data : Bytes) : Bytes :=
  if data.length ≤ offset then []
  else
    let stop := if size = 0 then data.length else min (offset + size) data.length
    (data.take stop).drop offset

def read (path : Str) (offset size : Nat) (entries : Entries) : Except Error Bytes :=
  let normalized := normalizePath path
  match entries.find normalized with
  | some entry =>
    if entry.isDir then .error (.isADirectory normalized)
    else .ok (slice offset size entry.data)
  | none => .error (.notFound normalized)

def readNode (f : Nodes) (p : Path) (offset size : Nat) : Except Error Bytes :=
  match f p with
  | some (.file data) => .ok (slice offset size data)
  | some .dir => .error (.isADirectory (absolute p))
  | none => .error (.notFound (absolute p))

/-- The call does not remove the root and moves nothing below itself. -/
def Call.Plain : Call -> Prop
  | removeAll p => p ≠ []
  | rename old new => ¬ Below old new
  | _ => True

inductive Agree (f : Nodes) : Except Error Unit × Entries -> Option Nodes -> Prop
  | done {entries' : Entries} {g : Nodes} :
    nodes entries' = g -> Agree f (.ok (), entries') (some g)
  | refused {entries' : Entries} {e : Error} :
    nodes entries' = f -> Agree f (.error e, entries') none

/-- The call does to the map what it does to the tree. -/
def Call.Agrees (now : SystemTime) (entries : Entries) (call : Call) : Prop :=
  Agree (nodes entries) (call.perform now entries) (call.effect (nodes entries))

/-!
# One call
-/

section

variable {now : SystemTime} {entries : Entries} {p : Path}

theorem nodes_put (e : FileEntry) : nodes (entries.put (absolute p) e) =
    update (nodes entries) p (some e.node) := by
  funext q
  rw [nodes, get_put, update_apply]
  split <;> rfl

theorem nodes_del :
    nodes (Assoc.del entries (absolute p)) = update (nodes entries) p none := by
  funext q
  rw [nodes, get_del, update_apply]
  split <;> rfl

theorem nodes_of_none (h : get entries p = none) : nodes entries p = none := by
  rw [nodes, h]
  rfl

theorem nodes_ne_none {entry : FileEntry} (h : get entries p = some entry) :
    nodes entries p ≠ none := by
  rw [nodes, h]
  exact some_ne_none _

theorem nodes_of_dir {entry : FileEntry} (h : get entries p = some entry)
    (hdir : entry.isDir = true) : nodes entries p = some .dir := by
  rw [nodes, h, map_some, node, if_pos hdir]

theorem nodes_of_file {entry : FileEntry} (h : get entries p = some entry)
    (hfile : entry.isDir = false) : nodes entries p = some (.file entry.data) := by
  rw [nodes, h, map_some, node, hfile]
  rfl

theorem nodes_eq_dir_iff : nodes entries p = some .dir <-> IsDir entries p := by
  rw [nodes, map_eq_some_iff]
  apply exists_congr
  intro d
  apply and_congr_right'
  rw [node]
  split
  · exact iff_of_true rfl ‹_›
  · exact iff_of_false Node.noConfusion ‹_›

theorem checkParent_iff :
    checkParent entries (absolute p) = .ok () <-> Inside (nodes entries) p := by
  rw [checkParent_absolute]
  exact or_congr_right nodes_eq_dir_iff.symm

theorem not_inside {e : Error} (h : checkParent entries (absolute p) = .error e) :
    ¬ Inside (nodes entries) p := by
  intro hin
  cases h.symm.trans (checkParent_iff.mpr hin)

theorem insertNew_agree (p : Path) (entry : FileEntry) :
    Agree (nodes entries) (insertNew (absolute p) entry entries)
      (inserted (nodes entries) p entry.node) := by
  rw [insertNew, inserted]
  simp only [normalizePath_absolute, find_eq_get]
  cases hget : get entries p with
  | some old =>
    simp only [isSome_some, if_true, nodes_ne_none hget, false_and, if_false]
    exact .refused rfl
  | none =>
    simp only [isSome_none, Bool.false_eq_true, if_false]
    cases hcheck : checkParent entries (absolute p) with
    | error e =>
      rw [if_neg fun h => not_inside hcheck h.2]
      exact .refused rfl
    | ok u =>
      rw [if_pos ⟨nodes_of_none hget, checkParent_iff.mp hcheck⟩]
      exact .done (nodes_put entry)

theorem onFile_agree {onDir onNone : Error} {next : Bytes -> Option Nodes}
    {run : FileEntry -> Except Error Unit × Entries}
    (hrun : forall entry, entry.isDir = false ->
      Agree (nodes entries) (run entry) (next entry.data)) :
    Agree (nodes entries)
      (match get entries p with
      | some entry => if entry.isDir then (.error onDir, entries) else run entry
      | none => (.error onNone, entries))
      (onFile (nodes entries) p next) := by
  rw [onFile]
  cases hget : get entries p with
  | none =>
    rw [nodes_of_none hget]
    exact .refused rfl
  | some entry =>
    cases hdir : entry.isDir with
    | true =>
      rw [nodes_of_dir hget hdir]
      simp only [hdir, if_true]
      exact .refused rfl
    | false =>
      rw [nodes_of_file hget hdir]
      simp only [hdir, Bool.false_eq_true, if_false]
      exact hrun entry hdir

theorem nodes_put_file {entry : FileEntry} (hfile : entry.isDir = false) :
    nodes (entries.put (absolute p) entry) =
      update (nodes entries) p (some (.file entry.data)) := by
  rw [nodes_put, node, hfile]
  rfl

theorem remove_agree (p : Path) : (Call.remove p).Agrees now entries := by
  rw [Call.Agrees, Call.perform, Memfs.remove, Call.effect]
  simp only [normalizePath_absolute, find_eq_get]
  exact onFile_agree fun _ _ => .done nodes_del

theorem truncate_agree (p : Path) (size : Nat) :
    (Call.truncate p size).Agrees now entries := by
  rw [Call.Agrees, Call.perform, Memfs.truncate, Call.effect]
  simp only [normalizePath_absolute, find_eq_get]
  exact onFile_agree fun _ hfile => .done (nodes_put_file hfile)

theorem write_agree (p : Path) (data : Bytes) (offset : Nat) (flags : WriteFlag) :
    (Call.write p data offset flags).Agrees now entries := by
  rw [Call.Agrees, Call.perform, Memfs.write, Call.effect]
  simp only [normalizePath_absolute, find_eq_get]
  cases hget : get entries p with
  | none =>
    have hnode := nodes_of_none hget
    cases hcheck : checkParent entries (absolute p) with
    | error e =>
      have hnot := not_inside hcheck
      cases flags <;> simp [writeEffect, inserted, written, onFile, hnode, hnot] <;>
        exact .refused rfl
    | ok u =>
      have hin := checkParent_iff.mp hcheck
      cases flags <;> simp only [writeEffect, inserted, written, onFile, hnode, hin] <;>
        first | exact .refused rfl | exact .done (nodes_put _)
  | some entry =>
    cases hdir : entry.isDir with
    | true =>
      have hnode := nodes_of_dir hget hdir
      simp only [hdir, if_true]
      cases flags <;> simp only [writeEffect, inserted, written, onFile, hnode] <;>
        exact .refused rfl
    | false =>
      have hnode := nodes_of_file hget hdir
      have hput : forall data' : Bytes, nodes (entries.put (absolute p)
          { entry.touch now with data := data' }) =
            update (nodes entries) p (some (.file data')) :=
        fun _ => nodes_put_file hdir
      simp only [hdir, Bool.false_eq_true, if_false]
      cases flags <;> simp only [writeEffect, inserted, written, onFile, hnode]
      case createNew =>
        refine .refused ((hput entry.data).trans ?_)
        exact hnode ▸ update_eq_self p (nodes entries)
      all_goals exact .done (hput _)

theorem removeAll_agree (hp : p ≠ []) : (Call.removeAll p).Agrees now entries := by
  rw [Call.Agrees, Call.effect]
  cases hget : get entries p with
  | none =>
    rw [if_pos (nodes_of_none hget), Call.perform, Memfs.removeAll]
    simp only [normalizePath_absolute, find_eq_get, hget]
    exact .refused rfl
  | some entry =>
    rw [if_neg (nodes_ne_none hget), removeAll_run p hget]
    refine .done ?_
    funext q
    rw [nodes, get_removeAll hp]
    exact apply_ite _ _ _ _

theorem replace_agree (src dst : Path) :
    (Call.replace src dst).Agrees now entries := by
  rw [Call.Agrees, Call.perform, Memfs.replace, Call.effect, onFile]
  simp only [normalizePath_absolute, find_eq_get]
  cases hsrc : get entries src with
  | none =>
    rw [nodes_of_none hsrc]
    exact .refused rfl
  | some entry =>
    cases hfile : entry.isDir with
    | true =>
      rw [nodes_of_dir hsrc hfile]
      simp only [hfile, if_true]
      exact .refused rfl
    | false =>
      rw [nodes_of_file hsrc hfile]
      simp only [hfile, Bool.false_eq_true, if_false]
      cases hcheck : checkParent entries (absolute dst) with
      | error e =>
        simp only [not_inside hcheck, false_and, if_false]
        exact .refused rfl
      | ok u =>
        have hin := checkParent_iff.mp hcheck
        by_cases hdst : nodes entries dst = some .dir
        · rw [if_pos ((any_eq_true ..).mpr (nodes_eq_dir_iff.mp hdst)),
            if_neg fun h => h.2 hdst]
          exact .refused rfl
        · have hany := fun h =>
            hdst (nodes_eq_dir_iff.mpr ((any_eq_true ..).mp h))
          rw [if_neg hany, if_pos ⟨hin, hdst⟩]
          refine .done ?_
          rw [nodes_put_file hfile, nodes_del, nodes_del]
          funext q
          simp only [update_apply]
          split <;> rfl

theorem rename_agree (h : Formed entries) {old new : Path} (hbelow : ¬ Below old new) :
    (Call.rename old new).Agrees now entries := by
  rw [Call.Agrees, Call.perform, Call.effect]
  cases hold : get entries old with
  | none =>
    rw [if_neg fun h => h.1 (nodes_of_none hold), Memfs.rename]
    simp only [normalizePath_absolute, find_eq_get, hold]
    exact .refused rfl
  | some entry =>
    have hsome : nodes entries old ≠ none := nodes_ne_none hold
    cases hnew : get entries new with
    | some taken =>
      rw [if_neg fun h => nodes_ne_none hnew h.2.1, Memfs.rename]
      simp only [normalizePath_absolute, find_eq_get, hold, hnew]
      exact .refused rfl
    | none =>
      cases hcheck : checkParent entries (absolute new) with
      | error e =>
        rw [if_neg fun h => not_inside hcheck h.2.2, Memfs.rename]
        simp only [normalizePath_absolute, find_eq_get, hold, hnew, hcheck]
        exact .refused rfl
      | ok u =>
        rw [if_pos ⟨hsome, nodes_of_none hnew, checkParent_iff.mp hcheck⟩,
          rename_eq h hold hnew hcheck]
        have hmoved := moved_moveAll h hold hnew (apart_of_free h hold hnew hbelow)
        refine .done ?_
        funext q
        by_cases hin : new <+: q
        · rcases hin with ⟨r, rfl⟩
          rw [if_pos (List.prefix_append ..), List.drop_left]
          exact congrArg (Option.map _) (hmoved.arrived r)
        · rw [if_neg hin]
          by_cases hout : old <+: q
          · rcases hout with ⟨r, rfl⟩
            rw [if_pos (List.prefix_append ..)]
            exact congrArg (Option.map _) (hmoved.left r hin)
          · rw [if_neg hout]
            exact congrArg (Option.map _) (hmoved.get_other hout hin)

theorem plain_agree (h : Formed entries) {call : Call} (hplain : call.Plain) :
    call.Agrees now entries := by
  cases call with
  | create p => exact insertNew_agree p _
  | mkdir p => exact insertNew_agree p _
  | write => exact write_agree ..
  | remove => exact remove_agree _
  | removeAll => exact removeAll_agree hplain
  | rename => exact rename_agree h hplain
  | replace => exact replace_agree ..
  | truncate => exact truncate_agree ..

theorem plain_formed (h : Formed entries) {call : Call} (hplain : call.Plain) :
    Formed (call.perform now entries).2 := by
  by_cases hsafe : Safe now entries call
  · exact (safe_kept h call hsafe).2
  cases call with
  | write p data offset flags =>
    cases flags with
    | createNew =>
      rw [Safe] at hsafe
      push Not at hsafe
      rcases hsafe with ⟨entry, hget, hfile, _⟩
      rw [Call.perform, Memfs.write]
      simp only [normalizePath_absolute, hget, hfile]
      exact h.update hget rfl
    | _ => exact absurd trivial hsafe
  | removeAll p => exact absurd hplain hsafe
  | rename old new => exact absurd (fun h => hplain h.1) hsafe
  | _ => exact absurd trivial hsafe

/-!
# Runs
-/

theorem Agree.nodes_eq {f : Nodes} {result : Except Error Unit × Entries}
    {effect : Option Nodes} (h : Agree f result effect) :
    nodes result.2 = effect.getD f := by
  cases h with
  | done h => exact h
  | refused h => exact h

theorem after_agree {calls : List (SystemTime × Call)} (h : Formed entries)
    (hplain : forall call, call ∈ calls -> call.2.Plain) :
    Formed (after calls entries) ∧
      nodes (after calls entries) = replay calls (nodes entries) := by
  induction calls generalizing entries with
  | nil => exact ⟨h, rfl⟩
  | cons first rest ih =>
    rcases List.forall_mem_cons.mp hplain with ⟨hfirst, hrest⟩
    rcases ih (plain_formed h hfirst) hrest with ⟨hformed, hnodes⟩
    exact ⟨hformed, hnodes.trans
      (congrArg (replay rest) (plain_agree h hfirst).nodes_eq)⟩

/-- From a new file system, calls that neither remove the root nor move a path
below itself are refused as the tree says and leave the tree that it says, and
every read answers from it. -/
theorem run_nodes (start : SystemTime) (calls : List (SystemTime × Call))
    (hplain : forall call, call ∈ calls -> call.2.Plain) :
    (forall before now call rest, calls = before ++ (now, call) :: rest ->
      Agree (replay before (nodes (new start)))
        (call.perform now (after before (new start)))
        (call.effect (replay before (nodes (new start))))) ∧
    nodes (after calls (new start)) = replay calls (nodes (new start)) ∧
    forall p offset size, read (absolute p) offset size (after calls (new start)) =
      readNode (replay calls (nodes (new start))) p offset size := by
  have hafter := after_agree (formed_new start) hplain
  refine ⟨?_, hafter.2, ?_⟩
  · intro before now call rest heq
    rw [heq, List.forall_mem_append, List.forall_mem_cons] at hplain
    have hbefore := after_agree (formed_new start) hplain.1
    rw [← hbefore.2]
    exact plain_agree hbefore.1 hplain.2.1
  · intro p offset size
    rw [← hafter.2, read, readNode]
    simp only [normalizePath_absolute, find_eq_get]
    cases hget : get (after calls (new start)) p with
    | none =>
      rw [nodes_of_none hget]
    | some entry =>
      cases hdir : entry.isDir with
      | true =>
        rw [nodes_of_dir hget hdir]
        exact if_pos hdir
      | false =>
        rw [nodes_of_file hget hdir]
        simp only [hdir, Bool.false_eq_true, if_false]

end

/-- A file is renamed and written over from its second byte. -/
theorem run_nodes_sample : read (absolute [.ofString "y"]) 1 0 (after
    [(1, .write [.ofString "x"] [7, 8] 0 .create),
      (2, .rename [.ofString "x"] [.ofString "y"]),
      (3, .write [.ofString "y"] [1, 2] 1 .none)] (new 0)) = .ok [1, 2] := by
  refine ((run_nodes 0 _ ?_).2.2 _ 1 0).trans (by decide)
  intro call hcall
  rcases hcall with _ | ⟨_, _ | ⟨_, _ | ⟨_, ⟨⟩⟩⟩⟩
  · trivial
  · intro h
    exact absurd h.isPrefix (by decide)
  · trivial

end Memfs
end OpenViking
