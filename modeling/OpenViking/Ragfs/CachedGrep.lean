import OpenViking.Ragfs.CachedTree
import OpenViking.Ragfs.Grep

/-!
# Search through the cache

The cached search keeps a stack instead of recursing and reads the files in
batches.  A batch is read as a whole before its matches are added.
-/

namespace OpenViking
namespace Ragfs

open Paths List Nat
open Segments
open Emitted
open StackLoop

/-- Listings and contents in the cache were read from the backend. -/
structure FileCache {ε : Type} (files : FileTree ε) where
  listings : ListingCache files.toTree
  heldLines : Str -> Option (List Str)
  coherentLines : forall (path : Str) (lines : List Str),
    heldLines path = some lines -> files.lines path = .ok lines

def FileCache.lines {ε : Type} {files : FileTree ε} (cache : FileCache files)
    (path : Str) : Except ε (List Str) :=
  match cache.heldLines path with
  | some lines => .ok lines
  | none => files.lines path

theorem FileCache.lines_eq {ε : Type} {files : FileTree ε}
    (cache : FileCache files) (path : Str) :
    cache.lines path = files.lines path := by
  rw [FileCache.lines]
  cases hheld : cache.heldLines path with
  | none => rfl
  | some lines => exact (cache.coherentLines path lines hheld).symm

/-- `GREP_CACHE_FILE_CONCURRENCY`. -/
def grepCacheFileConcurrency : Nat := 8

structure GrepState where
  fileBatch : List Str
  result : List GrepMatch

/-- A missing flag is answered by `stat`. -/
structure GrepTask where
  path : Str
  isDir : Option Bool

section Loop

variable {ε : Type} {files : FileTree ε} (cache : FileCache files)
  (request : GrepRequest)

def grepCachedFile (path : Str) (remaining : Option Nat) :
    Except ε (List GrepMatch) :=
  match cache.lines path with
  | .error e => .error e
  | .ok lines =>
    .ok (grepLines request.isMatch remaining
      (relativeMatchFile request.base path) 1 lines [])

/-- The matches of a file are added; `true` when one did not fit. -/
def pushMatches (limit : Option Nat) :
    List GrepMatch -> List GrepMatch -> Bool × List GrepMatch
  | [], result => (false, result)
  | item :: rest, result =>
    if reached limit result.length then (true, result)
    else pushMatches limit rest (result ++ [item])

/-- The answers of a batch, in the order of its files. -/
def pushBatch (remaining : Option Nat) :
    List Str -> List GrepMatch -> Except ε (List GrepMatch)
  | [], result => .ok result
  | path :: rest, result =>
    match grepCachedFile cache request path remaining with
    | .error e => .error e
    | .ok items =>
      let pushed := pushMatches request.nodeLimit items result
      if pushed.1 then .ok pushed.2
      else pushBatch remaining rest pushed.2

def flushGrepFileBatch (s : GrepState) : Except ε GrepState :=
  if s.fileBatch = [] ∨ reached request.nodeLimit s.result.length = true then
    .ok ⟨[], s.result⟩
  else
    (pushBatch cache request
      (request.nodeLimit.map fun limit => limit - s.result.length)
      s.fileBatch s.result).map fun result => ⟨[], result⟩

def pushGrepTasks (current : Str) (entries : List FileInfo) : List GrepTask :=
  entries.reverse.foldl
    (fun stack entry => ⟨entryPath current entry.name, some entry.isDir⟩ :: stack)
    []

/-- The end of a turn at a directory, when there is room. -/
def enterDirectory (current : Str) (s : GrepState) :
    Outcome ε GrepTask GrepState :=
  if request.staysOut current then .next [] s
  else if reached request.levelLimit (request.depth current) then
    .next [] s
  else
    match cache.listings.readDir current with
    | .error e => .fail e
    | .ok entries => .next (pushGrepTasks current entries) s

/-- One turn of the loop. -/
def grepStep (task : GrepTask) (s : GrepState) : Outcome ε GrepTask GrepState :=
  if reached request.nodeLimit s.result.length then .stop s
  else if request.isExcluded task.path then .next [] s
  else
    match (match task.isDir with
      | some isDir => Except.ok isDir
      | none => files.isDir task.path) with
    | Except.error e => .fail e
    | Except.ok true =>
      match flushGrepFileBatch cache request s with
      | Except.error e => .fail e
      | Except.ok s' =>
        if reached request.nodeLimit s'.result.length then .stop s'
        else enterDirectory cache request task.path s'
    | Except.ok false =>
      if request.tooDeep task.path then .next [] s
      else
        let batch := s.fileBatch ++ [task.path]
        if grepCacheFileConcurrency ≤ batch.length then
          match flushGrepFileBatch cache request ⟨batch, s.result⟩ with
          | Except.error e => .fail e
          | Except.ok s' => .next [] s'
        else .next [] ⟨batch, s.result⟩

/-- `grep_via_cache` ends with the matches; the last batch is flushed after the
loop. -/
def GrepViaCache (out : Except ε (List GrepMatch)) : Prop :=
  exists left : Except ε GrepState,
    Runs (grepStep cache request) [⟨request.base, none⟩] ⟨[], []⟩ left ∧
      out = (left.bind (flushGrepFileBatch cache request)).map GrepState.result

end Loop

/-!
# Flushing a batch
-/

section Flush

variable {ε : Type} {files : FileTree ε} {cache : FileCache files}
  {request : GrepRequest}

theorem grepCachedFile_eq (path : Str) (remaining : Option Nat) :
    grepCachedFile cache request path remaining =
      match files.lines path with
      | .error e => .error e
      | .ok lines =>
        collect remaining [] ⟨matchesOf request.isMatch
          (relativeMatchFile request.base path) 1 lines, none⟩ := by
  rw [grepCachedFile, cache.lines_eq]
  cases files.lines path with
  | error e => rfl
  | ok lines => exact (collect_grepLines _ _ _ _ _ _).symm

theorem pushMatches_none (items result : List GrepMatch) :
    pushMatches none items result = (false, result ++ items) := by
  induction items generalizing result with
  | nil => rw [pushMatches, append_nil]
  | cons item rest ih =>
    rw [pushMatches, if_neg (by exact Bool.false_ne_true), ih, append_assoc]
    rfl

variable {result : List GrepMatch}

theorem pushMatches_some {n : Nat}
    (hle : result.length ≤ n) (items : List GrepMatch) :
    pushMatches (some n) items result =
      (decide (n < (result ++ items).length), (result ++ items).take n) := by
  induction items generalizing result with
  | nil =>
    rw [pushMatches, append_nil, take_of_length_le hle,
      decide_eq_false (not_lt.mpr hle)]
  | cons item rest ih =>
    rw [pushMatches]
    rcases lt_or_ge result.length n with hlt | hge
    · have hroom : reached (some n) result.length = false :=
        decide_eq_false (not_le.mpr hlt)
      have hle' : (result ++ [item]).length ≤ n := by
        rw [length_append]
        exact hlt
      rw [hroom, if_neg Bool.false_ne_true, ih hle', append_assoc]
      rfl
    · have hfull : reached (some n) result.length = true := decide_eq_true hge
      have hlen : n < (result ++ item :: rest).length := by
        rw [length_append, length_cons]
        omega
      have heq : result.length = n := le_antisymm hle hge
      rw [hfull, if_pos rfl, decide_eq_true hlen, ← heq, take_left]

theorem pushBatch_none (hlimit : request.nodeLimit = none) (batch : List Str)
    (result : List GrepMatch) :
    pushBatch cache request none batch result =
      collect none result (each (fileMatches files request) batch) := by
  induction batch generalizing result with
  | nil => exact (collect_nothing none result).symm
  | cons path rest ih =>
    rw [pushBatch, each, fileMatches, collect_andThen, grepCachedFile_eq]
    cases files.lines path with
    | error e => rfl
    | ok lines =>
      dsimp only
      rw [collect_none, toExcept]
      dsimp only
      rw [hlimit, pushMatches_none]
      exact ih _

theorem pushBatch_some {n : Nat} (hlimit : request.nodeLimit = some n)
    (remaining : Nat) (batch : List Str)
    (hle : result.length ≤ n) :
    pushBatch cache request (some remaining) batch result =
      collectBeyond n result
        (each (fun path => (fileMatches files request path).capped remaining)
          batch) := by
  induction batch generalizing result with
  | nil =>
    rw [pushBatch, each, collectBeyond, nothing, append_nil,
      if_neg (not_lt.mpr hle)]
  | cons path rest ih =>
    rw [pushBatch, each, fileMatches, grepCachedFile_eq]
    cases files.lines path with
    | error e =>
      show .error e = collectBeyond n result ⟨[].take remaining, some e⟩
      rw [collectBeyond, take_nil, append_nil,
        if_neg (not_lt.mpr hle)]
    | ok lines =>
      dsimp only
      rw [collect_some]
      dsimp only
      rw [hlimit, pushMatches_some hle, capped, collectBeyond_andThen]
      dsimp only
      by_cases hbeyond : n < (result ++ (matchesOf request.isMatch
          (relativeMatchFile request.base path) 1 lines).take remaining).length
      · rw [if_pos hbeyond, if_pos (decide_eq_true hbeyond)]
      · have hshort := not_lt.mp hbeyond
        rw [if_neg hbeyond, if_neg (by simpa using hbeyond),
          take_of_length_le hshort]
        exact ih hshort

/-!
# Late errors
-/

/-- The matches before a file that cannot be read fill the limit exactly when
those of each file are cut at what remained before the batch. -/
def LateError (files : FileTree ε) (request : GrepRequest) (held : Nat)
    (batch : List Str) : Prop :=
  exists n : Nat, request.nodeLimit = some n ∧
    FillsAndFails (fileMatches files request) n held batch

/-- A batch in one of several that fails late, after the ones before it. -/
def LateErrorIn (files : FileTree ε) (request : GrepRequest) :
    Nat -> List (List Str) -> Prop
  | _, [] => False
  | held, batch :: rest =>
    LateError files request held batch ∨
      ((each (fileMatches files request) batch).failure = none ∧
        LateErrorIn files request
          (held + (each (fileMatches files request) batch).items.length) rest)

/-- The batches of the visits, from a started batch on, up to a directory whose
listing fails. -/
def batchesOf {ε : Type} : List Str -> List (Visit ε) -> List (List Str)
  | batch, [] => [batch]
  | batch, .file path :: rest =>
    if grepCacheFileConcurrency ≤ (batch ++ [path]).length then
      (batch ++ [path]) :: batchesOf [] rest
    else batchesOf (batch ++ [path]) rest
  | batch, .directory none :: rest => batch :: batchesOf [] rest
  | batch, .directory (some _) :: _ => [batch]

variable {batch : List Str}

theorem flush_of_reached
    (h : reached request.nodeLimit result.length = true) :
    flushGrepFileBatch cache request ⟨batch, result⟩ =
      .ok ⟨[], result⟩ := by
  rw [flushGrepFileBatch, if_pos (Or.inr h)]

theorem flush_nil (result : List GrepMatch) :
    flushGrepFileBatch cache request ⟨[], result⟩ = .ok ⟨[], result⟩ := by
  rw [flushGrepFileBatch, if_pos (Or.inl rfl)]

/-- Without a late error a flush adds what the files bring one by one. -/
theorem flush_eq
    (h : ¬ LateError files request result.length batch) :
    flushGrepFileBatch cache request ⟨batch, result⟩ =
      (collect request.nodeLimit result
        (each (fileMatches files request) batch)).map fun result =>
          ⟨[], result⟩ := by
  cases hroom : reached request.nodeLimit result.length with
  | true =>
    rw [flush_of_reached hroom, collect_of_reached hroom]
    rfl
  | false =>
    by_cases hempty : batch = []
    · rw [hempty, flush_nil]
      show _ = (collect request.nodeLimit result nothing).map _
      rw [collect_nothing]
      rfl
    rw [flushGrepFileBatch, if_neg (by simp [hempty, hroom])]
    cases hlimit : request.nodeLimit with
    | none =>
      show (pushBatch cache request none batch result).map _ = _
      rw [pushBatch_none hlimit]
    | some n =>
      rw [hlimit] at hroom
      have hlt : result.length < n := not_le.mp (of_decide_eq_false hroom)
      have hfills : ¬ FillsAndFails (fileMatches files request) n
          result.length batch := fun hf => h ⟨n, hlimit, hf⟩
      show (pushBatch cache request (some (n - result.length)) batch
        result).map _ = _
      rw [pushBatch_some hlimit _ _ (le_of_lt hlt),
        collectBeyond_eq_collect hlt hfills]

theorem flush_late (cache : FileCache files)
    (h : LateError files request result.length batch) :
    (exists e : ε,
      flushGrepFileBatch cache request ⟨batch, result⟩ = .error e) ∧
      exists xs : List GrepMatch,
        collect request.nodeLimit result
          (each (fileMatches files request) batch) = .ok xs := by
  rcases h with ⟨n, hlimit, hfills⟩
  have hlt := hfills.1
  have hroom : reached request.nodeLimit result.length = false := by
    rw [hlimit]
    exact decide_eq_false (not_le.mpr hlt)
  have hempty : batch ≠ [] := by
    intro hnil
    rw [hnil] at hfills
    exact hfills.2.1 rfl
  rcases hfills.diverges with ⟨⟨e, herror⟩, hok⟩
  rw [hlimit]
  refine ⟨⟨e, ?_⟩, hok⟩
  rw [flushGrepFileBatch, if_neg (by simp [hempty, hroom]), hlimit]
  show (pushBatch cache request (some (n - result.length)) batch result).map _ = _
  rw [pushBatch_some hlimit _ _ (le_of_lt hlt), herror]
  rfl

end Flush

/-!
# Taking the visits
-/

section Visits

variable {ε : Type} {files : FileTree ε} (cache : FileCache files)
  (request : GrepRequest)

/-- What the loop does at a visit. -/
def takeVisit (visit : Visit ε) (s : GrepState) : Except ε GrepState :=
  if reached request.nodeLimit s.result.length then .ok s
  else
    match visit with
    | .file path =>
      let batch := s.fileBatch ++ [path]
      if grepCacheFileConcurrency ≤ batch.length then
        flushGrepFileBatch cache request ⟨batch, s.result⟩
      else .ok ⟨batch, s.result⟩
    | .directory answer =>
      (flushGrepFileBatch cache request s).bind fun s' =>
        if reached request.nodeLimit s'.result.length then .ok s'
        else
          match answer with
          | none => .ok s'
          | some e => .error e

def takeVisits : List (Visit ε) -> GrepState -> Except ε GrepState
  | [], s => .ok s
  | visit :: rest, s => (takeVisit cache request visit s).bind (takeVisits rest)

variable {cache request}

variable {s : GrepState}

theorem takeVisits_of_reached
    (h : reached request.nodeLimit s.result.length = true)
    (visits : List (Visit ε)) :
    takeVisits cache request visits s = .ok s := by
  induction visits with
  | nil => rfl
  | cons visit rest ih =>
    rw [takeVisits, takeVisit.eq_def, if_pos h]
    exact ih

theorem takeVisits_append (visits visits' : List (Visit ε)) (s : GrepState) :
    takeVisits cache request (visits ++ visits') s =
      (takeVisits cache request visits s).bind
        (takeVisits cache request visits') := by
  induction visits generalizing s with
  | nil => rfl
  | cons visit rest ih =>
    rw [cons_append, takeVisits, takeVisits]
    cases takeVisit cache request visit s with
    | error e => rfl
    | ok s' => exact ih s'

/-- The matches after the visits and the last flush. -/
def finished (cache : FileCache files) (request : GrepRequest)
    (visits : List (Visit ε)) (s : GrepState) : Except ε (List GrepMatch) :=
  ((takeVisits cache request visits s).bind
    (flushGrepFileBatch cache request)).map GrepState.result

theorem finished_of_reached
    (h : reached request.nodeLimit s.result.length = true)
    (visits : List (Visit ε)) :
    finished cache request visits s = .ok s.result := by
  rw [finished, takeVisits_of_reached h]
  show (flushGrepFileBatch cache request s).map _ = _
  rw [flush_of_reached h]
  rfl

/-- The visits one by one: first the started batch, then the rest. -/
def oneByOne (files : FileTree ε) (request : GrepRequest)
    (visits : List (Visit ε)) (s : GrepState) : Except ε (List GrepMatch) :=
  collect request.nodeLimit s.result
    ((each (fileMatches files request) s.fileBatch).andThen
      (each (visitMatches files request) visits))

/-- The two ways to the matches are equal, or only the batches fail. -/
inductive Settled (late : Prop) (batched plain : Except ε (List GrepMatch)) :
    Prop where
  | same (h : ¬ late) (heq : batched = plain)
  | failed (h : late) (hbatched : exists e : ε, batched = .error e)
      (hplain : exists xs : List GrepMatch, plain = .ok xs)

theorem not_lateErrorIn_of_reached {held : Nat}
    (h : reached request.nodeLimit held = true) (batches : List (List Str)) :
    ¬ LateErrorIn files request held batches := by
  induction batches generalizing held with
  | nil => exact fun hlate => hlate
  | cons batch rest ih =>
    intro hlate
    rcases hlate with ⟨n, hlimit, hfills⟩ | ⟨_, hrest⟩
    · rw [hlimit] at h
      exact absurd hfills.1 (not_lt.mpr (of_decide_eq_true h))
    · exact ih (reached_mono (le_add_right _ _) h) hrest

theorem settled_of_reached
    (h : reached request.nodeLimit s.result.length = true)
    (batches : List (List Str)) (visits : List (Visit ε)) :
    Settled (LateErrorIn files request s.result.length batches)
      (finished cache request visits s) (oneByOne files request visits s) := by
  refine .same (not_lateErrorIn_of_reached h batches) ?_
  rw [finished_of_reached h, oneByOne, collect_of_reached h]

variable {batches : List (List Str)}

theorem lateErrorIn_cons_iff {result middle : List GrepMatch}
    (hlate : ¬ LateError files request result.length batch)
    (hok : collect request.nodeLimit result
      (each (fileMatches files request) batch) = .ok middle) :
    LateErrorIn files request result.length (batch :: batches) <->
      LateErrorIn files request middle.length batches := by
  constructor
  · intro h
    rcases h with hfirst | ⟨hfailure, hrest⟩
    · exact absurd hfirst hlate
    · rcases collect_ok_cases hok with hfull | ⟨_, heq⟩
      · have hlen := length_collect_le hok
        rw [length_append] at hlen
        exact absurd hrest
          (not_lateErrorIn_of_reached (reached_mono hlen hfull) batches)
      · rw [heq, length_append]
        exact hrest
  · intro h
    rcases collect_ok_cases hok with hfull | ⟨hfailure, heq⟩
    · exact absurd h (not_lateErrorIn_of_reached hfull batches)
    · rw [heq, length_append] at h
      exact .inr ⟨hfailure, h⟩

theorem Settled.congr {late late' : Prop}
    {batched plain : Except ε (List GrepMatch)} (hiff : late <-> late')
    (h : Settled late batched plain) : Settled late' batched plain := by
  cases h with
  | same h heq => exact .same (fun hlate => h (hiff.mpr hlate)) heq
  | failed h hbatched hplain =>
    exact .failed (hiff.mp h) hbatched hplain

theorem settled_flush {rest : List (Visit ε)}
    {go : GrepState -> Except ε (List GrepMatch)}
    (hgo : forall middle : List GrepMatch,
      Settled (LateErrorIn files request middle.length batches)
        (go ⟨[], middle⟩) (oneByOne files request rest ⟨[], middle⟩)) :
    Settled (LateErrorIn files request result.length (batch :: batches))
      ((flushGrepFileBatch cache request ⟨batch, result⟩).bind go)
      (oneByOne files request rest ⟨batch, result⟩) := by
  by_cases hlate : LateError files request result.length batch
  · rcases flush_late cache hlate with ⟨⟨e, herror⟩, xs, hok⟩
    refine .failed (Or.inl hlate) ⟨e, ?_⟩ ⟨xs, ?_⟩
    · rw [herror]
      rfl
    · rcases hlate with ⟨n, _, hfills⟩
      rw [oneByOne, andThen_of_failure hfills.2.1]
      exact hok
  · rw [flush_eq hlate, oneByOne, collect_andThen]
    cases hcollect : collect request.nodeLimit result
        (each (fileMatches files request) batch) with
    | error e =>
      refine .same ?_ rfl
      intro h
      rcases h with hfirst | ⟨hfailure, _⟩
      · exact hlate hfirst
      · have hempty := collect_ne_error hfailure request.nodeLimit result
        exact hempty e hcollect
    | ok middle =>
      apply (hgo middle).congr (lateErrorIn_cons_iff hlate hcollect).symm

theorem oneByOne_nil (result : List GrepMatch) :
    oneByOne files request [] ⟨[], result⟩ = .ok result :=
  collect_nothing request.nodeLimit result

theorem oneByOne_file (path : Str) (rest : List (Visit ε)) (s : GrepState) :
    oneByOne files request (.file path :: rest) s =
      oneByOne files request rest ⟨s.fileBatch ++ [path], s.result⟩ := by
  rw [oneByOne, oneByOne, each, each_append, each_singleton, andThen_assoc]
  rfl

theorem oneByOne_directory_none (rest : List (Visit ε))
    (result : List GrepMatch) :
    oneByOne files request (.directory none :: rest) ⟨[], result⟩ =
      oneByOne files request rest ⟨[], result⟩ :=
  rfl

theorem finished_cons (visit : Visit ε) (rest : List (Visit ε)) (s : GrepState) :
    finished cache request (visit :: rest) s =
      (takeVisit cache request visit s).bind (finished cache request rest) := by
  rw [finished, takeVisits]
  cases takeVisit cache request visit s with
  | error e => rfl
  | ok s' => rfl

theorem bind_assoc {α β γ : Type} (x : Except ε α) (f : α -> Except ε β)
    (g : β -> Except ε γ) :
    (x.bind f).bind g = x.bind fun a => (f a).bind g := by
  cases x with
  | error e => rfl
  | ok a => rfl

/-- In a run over the visits only late errors make a difference. -/
theorem settled_visits (visits : List (Visit ε)) (s : GrepState) :
    Settled
      (LateErrorIn files request s.result.length (batchesOf s.fileBatch visits))
      (finished cache request visits s) (oneByOne files request visits s) := by
  induction visits generalizing s with
  | nil =>
    have hgo : forall middle : List GrepMatch,
        Settled (LateErrorIn files request middle.length [])
          (.ok middle) (oneByOne files request [] ⟨[], middle⟩) :=
      fun middle => .same (fun h => h) (oneByOne_nil middle).symm
    have hfinished : finished cache request ([] : List (Visit ε)) s =
        (flushGrepFileBatch cache request s).bind fun s' => .ok s'.result := by
      show (flushGrepFileBatch cache request s).map GrepState.result = _
      cases flushGrepFileBatch cache request s with
      | error e => rfl
      | ok s' => rfl
    rw [hfinished, batchesOf]
    exact settled_flush hgo
  | cons visit rest ih =>
    cases hroom : reached request.nodeLimit s.result.length with
    | true => exact settled_of_reached hroom _ _
    | false =>
      rw [finished_cons, takeVisit.eq_def, hroom, if_neg Bool.false_ne_true]
      cases visit with
      | file path =>
        rw [oneByOne_file, batchesOf]
        dsimp only
        split
        · exact settled_flush fun middle => ih ⟨[], middle⟩
        · exact ih ⟨s.fileBatch ++ [path], s.result⟩
      | directory answer =>
        dsimp only
        rw [bind_assoc]
        cases answer with
        | none =>
          rw [batchesOf]
          apply settled_flush
          intro middle
          rw [oneByOne_directory_none]
          dsimp only
          cases hfull : reached request.nodeLimit middle.length with
          | true => exact ih ⟨[], middle⟩
          | false => exact ih ⟨[], middle⟩
        | some e =>
          rw [batchesOf]
          apply settled_flush
          intro middle
          dsimp only
          cases hfull : reached request.nodeLimit middle.length with
          | true =>
            refine .same (fun h => h) ?_
            show finished cache request rest ⟨[], middle⟩ = _
            rw [finished_of_reached hfull, oneByOne, collect_of_reached hfull]
          | false =>
            rw [if_neg Bool.false_ne_true]
            refine .same (fun h => h) ?_
            exact (collect_fail hfull e).symm

end Visits

/-!
# The loop takes the visits
-/

section Performs

variable {ε : Type} {files : FileTree ε} {cache : FileCache files}
  {request : GrepRequest}

theorem grepStep_idle
    (h : reached request.nodeLimit s.result.length = true) (task : GrepTask) :
    grepStep cache request task s = .stop s := by
  rw [grepStep, if_pos h]

theorem takeVisits_directory
    (hroom : reached request.nodeLimit s.result.length = false)
    (answer : Option ε) (rest : List (Visit ε)) :
    takeVisits cache request (.directory answer :: rest) s =
      (flushGrepFileBatch cache request s).bind fun s' =>
        if reached request.nodeLimit s'.result.length then .ok s'
        else
          match answer with
          | none => takeVisits cache request rest s'
          | some e => .error e := by
  rw [takeVisits, takeVisit.eq_def, hroom, if_neg Bool.false_ne_true]
  dsimp only
  rw [bind_assoc]
  congr 1
  funext s'
  cases hfull : reached request.nodeLimit s'.result.length with
  | true =>
    rw [if_pos rfl, if_pos rfl]
    exact takeVisits_of_reached hfull rest
  | false =>
    cases answer with
    | none => rfl
    | some e => rfl

variable {task : GrepTask}

theorem performs_visits {visits : List (Visit ε)}
    (h : forall (s : GrepState) (ts : List GrepTask) (out : Except ε GrepState),
      reached request.nodeLimit s.result.length = false ->
      After (grepStep cache request) ts (takeVisits cache request visits s) out ->
      Runs (grepStep cache request) (task :: ts) s out) :
    Performs (grepStep cache request) [task] (takeVisits cache request visits) := by
  apply performs_of_step
  intro s ts out hafter
  cases hroom : reached request.nodeLimit s.result.length with
  | false => exact h s ts out hroom hafter
  | true =>
    rw [takeVisits_of_reached hroom] at hafter
    rw [(runs_iff_of_idle (grepStep_idle hroom)).mp hafter]
    exact Runs.stop (grepStep_idle hroom task)

theorem performs_visits_flatMap {β : Type} {tasks : β -> List GrepTask}
    {found : β -> List (Visit ε)} {bs : List β}
    (h : forall b, b ∈ bs ->
      Performs (grepStep cache request) (tasks b)
        (takeVisits cache request (found b))) :
    Performs (grepStep cache request) (bs.flatMap tasks)
      (takeVisits cache request (bs.flatMap found)) := by
  induction bs with
  | nil => exact performs_nil
  | cons b rest ih =>
    have hstep := (h b mem_cons_self).append
      (ih fun b' hb => h b' (mem_cons_of_mem _ hb))
    simp only [← takeVisits_append] at hstep
    exact hstep

theorem pushGrepTasks_eq (current : Str) (entries : List FileInfo) :
    pushGrepTasks current entries =
      entries.flatMap fun entry =>
        [⟨entryPath current entry.name, some entry.isDir⟩] := by
  rw [pushGrepTasks, foldl_reverse]
  induction entries with
  | nil => rfl
  | cons entry rest ih =>
    rw [foldr_cons, ih, flatMap_cons]
    rfl

/-- What `stat` or the listing says of the path of a task. -/
def Kind (files : FileTree ε) (task : GrepTask) (isDir : Bool) : Prop :=
  match task.isDir with
  | some flag => flag = isDir
  | none => files.isDir task.path = .ok isDir

theorem Kind.answer {isDir : Bool}
    (h : Kind files task isDir) :
    (match task.isDir with
      | some flag => .ok flag
      | none => files.isDir task.path) = (.ok isDir : Except ε Bool) := by
  unfold Kind at h
  split at h
  · rw [h]
  · exact h

theorem performs_file (hkind : Kind files task false) :
    Performs (grepStep cache request) [task]
      (takeVisits cache request (fileVisits request task.path)) := by
  apply performs_visits
  intro s ts out hroom hafter
  have hstep : grepStep cache request task s =
      match takeVisits cache request (fileVisits request task.path) s with
      | .error e => .fail e
      | .ok s' => .next [] s' := by
    rw [grepStep, hroom, if_neg Bool.false_ne_true, hkind.answer, fileVisits]
    split
    · rfl
    dsimp only
    split
    · rfl
    rw [takeVisits, takeVisit.eq_def, hroom, if_neg Bool.false_ne_true]
    dsimp only
    split
    · cases flushGrepFileBatch cache request
        ⟨s.fileBatch ++ [task.path], s.result⟩ with
      | error e => rfl
      | ok s' => rfl
    · rfl
  cases hgiven : takeVisits cache request (fileVisits request task.path) s with
  | error e =>
    rw [hgiven] at hafter hstep
    change out = .error e at hafter
    rw [hafter]
    exact Runs.fail hstep
  | ok s' =>
    rw [hgiven] at hafter hstep
    exact Runs.next hstep hafter

/-- A directory is visited by a flush, and entered when there is room. -/
theorem runs_directory {ts : List GrepTask}
    {out : Except ε GrepState} {answer : Option ε} {rest : List (Visit ε)}
    (hkind : Kind files task true)
    (hroom : reached request.nodeLimit s.result.length = false)
    (hexcluded : request.isExcluded task.path = false)
    (henter : forall s' : GrepState,
      After (grepStep cache request) ts
        (match answer with
          | none => takeVisits cache request rest s'
          | some e => .error e) out ->
      (exists e : ε, enterDirectory cache request task.path s' = .fail e ∧
          out = .error e) ∨
        exists pushed : List GrepTask,
          enterDirectory cache request task.path s' = .next pushed s' ∧
            Runs (grepStep cache request) (pushed ++ ts) s' out)
    (hafter : After (grepStep cache request) ts
      (takeVisits cache request (.directory answer :: rest) s) out) :
    Runs (grepStep cache request) (task :: ts) s out := by
  have hstep : grepStep cache request task s =
      match flushGrepFileBatch cache request s with
      | .error e => .fail e
      | .ok s' =>
        if reached request.nodeLimit s'.result.length then .stop s'
        else enterDirectory cache request task.path s' := by
    rw [grepStep, hroom, if_neg Bool.false_ne_true, hexcluded,
      if_neg Bool.false_ne_true, hkind.answer]
  rw [takeVisits_directory hroom] at hafter
  cases hflush : flushGrepFileBatch cache request s with
  | error e =>
    rw [hflush] at hstep hafter
    change out = .error e at hafter
    rw [hafter]
    exact Runs.fail hstep
  | ok s' =>
    rw [hflush] at hstep hafter
    dsimp only [Except.bind] at hstep hafter
    cases hfull : reached request.nodeLimit s'.result.length with
    | true =>
      rw [hfull, if_pos rfl] at hstep hafter
      rw [(runs_iff_of_idle (grepStep_idle hfull)).mp hafter]
      exact Runs.stop hstep
    | false =>
      rw [hfull, if_neg Bool.false_ne_true] at hstep hafter
      rcases henter s' hafter with ⟨e, heq, hout⟩ | ⟨pushed, heq, hruns⟩
      · rw [hout]
        exact Runs.fail (hstep.trans heq)
      · exact Runs.next (hstep.trans heq) hruns

theorem performs_dir {fuel : Nat}
    (hfuel : files.height task.path < fuel) (hkind : Kind files task true) :
    Performs (grepStep cache request) [task]
      (takeVisits cache request (dirVisits files request fuel task.path)) := by
  induction fuel generalizing task with
  | zero => exact absurd hfuel (not_lt_zero _)
  | succ fuel ih =>
    apply performs_visits
    intro s ts out hroom hafter
    rw [dirVisits] at hafter
    cases hexcluded : request.isExcluded task.path with
    | true =>
      have hstep : grepStep cache request task s = .next [] s := by
        rw [grepStep, hroom, if_neg Bool.false_ne_true, if_pos hexcluded]
      rw [hexcluded, if_pos rfl] at hafter
      exact Runs.next hstep hafter
    | false =>
      rw [hexcluded, if_neg Bool.false_ne_true] at hafter
      cases hstays : request.staysOut task.path with
      | true =>
        rw [hstays, if_pos rfl] at hafter
        refine runs_directory hkind hroom hexcluded ?_ hafter
        intro s' hrest
        refine .inr ⟨[], ?_, hrest⟩
        rw [enterDirectory, if_pos hstays]
      | false =>
        rw [hstays, if_neg Bool.false_ne_true] at hafter
        cases hlevel : reached request.levelLimit (request.depth task.path) with
        | true =>
          rw [hlevel, if_pos rfl] at hafter
          refine runs_directory hkind hroom hexcluded ?_ hafter
          intro s' hrest
          refine .inr ⟨[], ?_, hrest⟩
          rw [enterDirectory, hstays, if_neg Bool.false_ne_true, if_pos hlevel]
        | false =>
          rw [hlevel, if_neg Bool.false_ne_true] at hafter
          cases hread : files.readDir task.path with
          | error e =>
            rw [hread] at hafter
            refine runs_directory hkind hroom hexcluded ?_ hafter
            intro s' hrest
            refine .inl ⟨e, ?_, hrest⟩
            rw [enterDirectory, hstays, if_neg Bool.false_ne_true,
              hlevel, if_neg Bool.false_ne_true,
              ListingCache.readDir_eq, hread]
          | ok entries =>
            rw [hread] at hafter
            refine runs_directory hkind hroom hexcluded ?_ hafter
            intro s' hrest
            refine .inr ⟨pushGrepTasks task.path entries, ?_, ?_⟩
            · rw [enterDirectory, hstays, if_neg Bool.false_ne_true,
                hlevel, if_neg Bool.false_ne_true,
                ListingCache.readDir_eq, hread]
            rw [pushGrepTasks_eq]
            refine performs_visits_flatMap ?_ ts s' out hrest
            intro entry hentry
            cases hdir : entry.isDir with
            | false =>
              rw [if_neg Bool.false_ne_true]
              exact performs_file rfl
            | true =>
              rw [if_pos rfl]
              have hlower := files.descends task.path entries
                hread entry hentry hdir
              exact ih (lt_of_lt_of_le hlower (le_of_lt_succ hfuel)) rfl

end Performs

/-!
# Agreement with the default search
-/

section Agrees

variable {ε : Type} {files : FileTree ε} (cache : FileCache files)
  (request : GrepRequest)

/-- The loop from the root takes the visits. -/
theorem runs_root :
    Runs (grepStep cache request) [⟨request.base, none⟩] ⟨[], []⟩
      (takeVisits cache request (visits files request) ⟨[], []⟩) := by
  cases hstat : files.isDir request.base with
  | ok isDir =>
    have hkind : Kind files ⟨request.base, none⟩ isDir := hstat
    cases isDir with
    | true =>
      have heq : visits files request = dirVisits files request
          (files.height request.base + 1) request.base := by
        rw [visits, hstat, dirVisits]
        split
        · rfl
        · rfl
      rw [heq]
      exact (performs_dir (lt_succ_self _) hkind).runs _
    | false =>
      have heq : visits files request = fileVisits request request.base := by
        rw [visits, hstat, fileVisits]
        split
        · rfl
        · rfl
      rw [heq]
      exact (performs_file hkind).runs _
  | error e =>
    cases hroom : reached request.nodeLimit ([] : List GrepMatch).length with
    | true =>
      rw [takeVisits_of_reached hroom]
      exact Runs.stop (grepStep_idle hroom _)
    | false =>
      cases hexcluded : request.isExcluded request.base with
      | true =>
        rw [visits, if_pos hexcluded]
        have hstep : grepStep cache request ⟨request.base, none⟩ ⟨[], []⟩ =
            .next [] ⟨[], []⟩ := by
          rw [grepStep, hroom, if_neg Bool.false_ne_true, if_pos hexcluded]
        exact Runs.next hstep (Runs.nil _)
      | false =>
        have hstep : grepStep cache request ⟨request.base, none⟩ ⟨[], []⟩ =
            .fail e := by
          rw [grepStep, hroom, if_neg Bool.false_ne_true, hexcluded,
            if_neg Bool.false_ne_true, hstat]
        have htaken : takeVisits cache request (visits files request)
            ⟨[], []⟩ = .error e := by
          rw [visits, hexcluded, if_neg Bool.false_ne_true, hstat]
          dsimp only
          rw [takeVisits_directory hroom, flush_nil]
          dsimp only [Except.bind]
          rw [hroom, if_neg Bool.false_ne_true]
        rw [htaken]
        exact Runs.fail hstep

theorem grepViaCache_iff {out : Except ε (List GrepMatch)} :
    GrepViaCache cache request out <->
      finished cache request (visits files request) ⟨[], []⟩ = out := by
  have hruns := runs_root cache request
  constructor
  · intro h
    rcases h with ⟨left, hleft, hout⟩
    rw [hout, hleft.unique hruns]
    rfl
  · intro h
    exact ⟨_, hruns, h.symm⟩

theorem grep_agrees_iff :
    (forall xs : List GrepMatch,
      grep files request = .ok xs <->
        GrepViaCache cache request (.ok xs)) <->
      ¬ LateErrorIn files request 0 (batchesOf [] (visits files request)) := by
  have hplain : grep files request =
      oneByOne files request (visits files request) ⟨[], []⟩ :=
    grep_eq_collect
  have hsettled : Settled
      (LateErrorIn files request 0 (batchesOf [] (visits files request)))
      (finished cache request (visits files request) ⟨[], []⟩)
      (oneByOne files request (visits files request) ⟨[], []⟩) :=
    settled_visits (visits files request) ⟨[], []⟩
  simp only [grepViaCache_iff]
  constructor
  · intro hall hlate
    cases hsettled with
    | same h heq => exact h hlate
    | failed h hbatched hok =>
      rcases hbatched with ⟨e, he⟩
      rcases hok with ⟨xs, hxs⟩
      have hfound := (hall xs).mp (hplain.trans hxs)
      rw [he] at hfound
      cases hfound
  · intro hnone xs
    cases hsettled with
    | same h heq => rw [hplain, heq]
    | failed h hbatched hok => exact absurd h hnone

end Agrees

/--
The cached traversal returns the same list when each entry before the limit
stands where the sorted listing has it, and the cached search returns the same
matches when no batch fails late.
-/
theorem cached_agrees_iff {ε : Type} {files : FileTree ε}
    (cache : FileCache files) (toLower : Str -> Str) :
    (forall (path : Str) (showHidden : Bool) (nodeLimit levelLimit : Option Nat),
      (forall xs : List TreeEntry,
        treeDirectory files.toTree toLower path showHidden nodeLimit levelLimit =
            .ok xs <->
          TreeDirectoryViaCache cache.listings path showHidden nodeLimit
            levelLimit (.ok xs)) <->
        InPlace nodeLimit
            (markedTreeWalk toLower path showHidden levelLimit files.toTree) ∨
          (Blocked nodeLimit
              (treeWalk files.toTree toLower path showHidden levelLimit) ∧
            Blocked nodeLimit
              (listedWalk path showHidden levelLimit files.toTree))) ∧
    forall request : GrepRequest,
      (forall xs : List GrepMatch,
        grep files request = .ok xs <->
          GrepViaCache cache request (.ok xs)) <->
        ¬ LateErrorIn files request 0 (batchesOf [] (visits files request)) :=
  ⟨fun path showHidden nodeLimit levelLimit =>
    treeDirectory_agrees_iff cache.listings toLower path showHidden nodeLimit
      levelLimit, grep_agrees_iff cache⟩

/-!
# An unsorted listing
-/

/-- A root that lists `b` before `a`. -/
def jumbledListing (path : Str) : Except Unit (List FileInfo) :=
  if path = ['/'] then .ok [⟨['b'], false⟩, ⟨['a'], false⟩]
  else .error ()

theorem jumbledListing_eq_ok {path : Str} {entries : List FileInfo}
    (h : jumbledListing path = .ok entries) :
    path = ['/'] ∧ entries = [⟨['b'], false⟩, ⟨['a'], false⟩] := by
  rw [jumbledListing] at h
  split at h
  · rename_i hroot
    exact ⟨hroot, (Except.ok.inj h).symm⟩
  · cases h

/-- The file `b` has one line, and `a` cannot be read. -/
def jumbled : FileTree Unit where
  readDir := jumbledListing
  height _ := 0
  descends := by
    intro path entries h
    rcases jumbledListing_eq_ok h with ⟨rfl, rfl⟩
    decide
  names := by
    intro path entries h
    rcases jumbledListing_eq_ok h with ⟨rfl, rfl⟩
    decide
  distinct := by
    intro path entries h
    rcases jumbledListing_eq_ok h with ⟨rfl, rfl⟩
    decide
  isDir path := .ok (decide (path = ['/']))
  lines path := if path = ['/', 'b'] then .ok [['x']] else .error ()
  listed := by
    intro path entries h e he
    rcases jumbledListing_eq_ok h with ⟨rfl, rfl⟩
    rcases List.mem_cons.mp he with rfl | he
    · rfl
    · cases List.mem_singleton.mp he
      rfl

def jumbledCache : FileCache jumbled where
  listings := ⟨fun _ => none, nofun⟩
  heldLines _ := none
  coherentLines := nofun

theorem sort_jumbled {path : Str} {entries : List FileInfo}
    (h : jumbled.readDir path = .ok entries) :
    sortDirectoryEntries id entries = entries.reverse := by
  rcases jumbledListing_eq_ok h with ⟨rfl, rfl⟩
  have hle : listingLe id ⟨['b'], false⟩ ⟨['a'], false⟩ = false := by decide
  simp [sortDirectoryEntries, mergeSort,
    List.MergeSort.Internal.splitInTwo, hle]

def firstMatch : GrepRequest where
  path := ['/']
  isMatch _ := true
  recursive := true
  nodeLimit := some 1
  excludePath := none
  levelLimit := none

/-- The cached traversal lists `b` first, and the cached search for one match
fails at `a`. -/
theorem cached_disagrees_jumbled :
    ¬ (forall xs : List TreeEntry,
      treeDirectory jumbled.toTree id ['/'] false none none = .ok xs <->
        TreeDirectoryViaCache jumbledCache.listings ['/'] false none none
          (.ok xs)) ∧
    ¬ (forall xs : List GrepMatch,
      grep jumbled firstMatch = .ok xs <->
        GrepViaCache jumbledCache firstMatch (.ok xs)) := by
  constructor
  · intro hall
    have hsorted : treeDirectory jumbled.toTree id ['/'] false none none =
        .ok [⟨['/', 'a'], ['a'], ⟨['a'], false⟩⟩,
          ⟨['/', 'b'], ['b'], ⟨['b'], false⟩⟩] := by
      rw [treeDirectory_eq_ok_iff, treeWalk,
        walk_order (fun _ _ h => sort_jumbled h)]
      rfl
    have hlisted := treeDirectoryViaCache_iff jumbledCache.listings ['/'] false
      none none |>.mp ((hall _).mp hsorted)
    exact absurd (congrArg Except.toOption hlisted) (by decide)
  · intro hall
    have hone : grep jumbled firstMatch = .ok [⟨['b'], 1, ['x']⟩] := by
      rfl
    have hbatch := (grepViaCache_iff jumbledCache firstMatch).mp
      ((hall _).mp hone)
    exact absurd (congrArg Except.toOption hbatch) (by decide)

end Ragfs
end OpenViking
