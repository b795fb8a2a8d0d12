import OpenViking.MultiWrite.ExecuteWrite

/-!
# A failed write and the sync log

The pipeline overwrites the record of a name before it tries the primary and
deletes it when the primary fails.  So a failed write gives the record back
only if there was none.
-/

namespace OpenViking
namespace MultiWrite

open Paths Attempt Assoc World SyncLogEntry

variable {σ α : Type}

/-!
# Accesses
-/

/-- The world some accesses later. -/
def World.skip (w : World σ) (n : Nat) : World σ :=
  { w with answers := w.answers.drop n }

/-- The next accesses succeed. -/
def Answered (n : Nat) (w : World σ) : Prop :=
  forall m, m ∈ w.answers.take n -> m = none

instance (n : Nat) (w : World σ) : Decidable (Answered n w) :=
  inferInstanceAs (Decidable (forall m, m ∈ _ -> _))

@[simp] theorem skip_zero (w : World σ) : w.skip 0 = w := rfl

@[simp] theorem skip_skip (w : World σ) (m n : Nat) :
    (w.skip m).skip n = w.skip (m + n) := by
  rw [skip, skip, skip]
  simp [List.drop_drop]

theorem answered_add (m n : Nat) (w : World σ) :
    Answered (m + n) w <-> (Answered m w ∧ Answered n (w.skip m)) := by
  rw [Answered, Answered, Answered, skip, List.take_add]
  simp only [List.mem_append, or_imp, forall_and]

variable {w : World σ}

theorem backendCall_ok (h : Answered 1 w) :
    backendCall w = (.ok (), w.skip 1) := by
  rw [backendCall]
  split
  · rename_i hnil
    rw [skip, hnil]
    rw [List.drop_nil, ← hnil]
  · rename_i rest hcons
    rw [skip, hcons]
    rfl
  · rename_i message rest hcons
    have hnone := h (some message) (by rw [hcons]; exact List.mem_cons_self)
    cases hnone

theorem backendCall_error (h : ¬ Answered 1 w) :
    exists message,
      backendCall w = (.error (.backend message), w.skip 1) := by
  rw [backendCall]
  split
  · rename_i hnil
    exact absurd (by rw [Answered, hnil]; simp) h
  · rename_i rest hcons
    exact absurd (by rw [Answered, hcons]; simp) h
  · rename_i message rest hcons
    exact ⟨message, by rw [skip, hcons]; rfl⟩

@[simp] theorem dirMeta_skip (w : World σ) (n : Nat) (dir : Str) :
    (w.skip n).dirMeta dir = w.dirMeta dir :=
  rfl

theorem readDirMetaPair_ok (h : Answered 2 w) (dir : Str) :
    readDirMetaPair dir w = (.ok (w.dirMeta dir), w.skip 2) := by
  rcases (answered_add 1 1 w).mp h with ⟨hfirst, hsecond⟩
  have hredirect : readRedirectMeta dir w =
      (.ok (w.dirMeta dir).redirect, w.skip 1) :=
    bind_of_ok (backendCall_ok hfirst)
  have hlog : readSyncLogMeta dir (w.skip 1) =
      (.ok (w.dirMeta dir).syncLog, w.skip 2) := by
    have hcall := backendCall_ok hsecond
    rw [skip_skip] at hcall
    exact bind_of_ok hcall
  exact (bind_of_ok hredirect).trans (bind_of_ok hlog)

theorem readDirMetaPair_error (h : ¬ Answered 2 w) (dir : Str) :
    exists e n, readDirMetaPair dir w = (.error e, w.skip n) := by
  by_cases hfirst : Answered 1 w
  · have hsecond : ¬ Answered 1 (w.skip 1) :=
      fun hsecond => h ((answered_add 1 1 w).mpr ⟨hfirst, hsecond⟩)
    rcases backendCall_error hsecond with ⟨message, hcall⟩
    rw [skip_skip] at hcall
    have hredirect : readRedirectMeta dir w =
        (.ok (w.dirMeta dir).redirect, w.skip 1) :=
      bind_of_ok (backendCall_ok hfirst)
    have hlog : readSyncLogMeta dir (w.skip 1) =
        (.error (.backend message), w.skip 2) :=
      bind_of_error hcall
    exact ⟨_, 2, (bind_of_ok hredirect).trans (bind_of_error hlog)⟩
  · rcases backendCall_error hfirst with ⟨message, hcall⟩
    have hredirect : readRedirectMeta dir w =
        (.error (.backend message), w.skip 1) :=
      bind_of_error hcall
    exact ⟨_, 1, bind_of_error hredirect⟩

theorem sameLog_iff {a b : SyncLogMeta} :
    sameLog a b = true <-> forall name, a.find name = b.find name := by
  rw [sameLog, List.all_eq_true]
  constructor
  · intro h name
    cases ha : a.find name with
    | some e =>
      have hmem : name ∈ (a.bindings ++ b.bindings).map Prod.fst :=
        List.mem_map.mpr ⟨(name, e),
          List.mem_append_left _ (mem_bindings.mpr ha), rfl⟩
      rw [← ha]
      exact beq_iff_eq.mp (h name hmem)
    | none =>
      cases hb : b.find name with
      | none => rfl
      | some e =>
        have hmem : name ∈ (a.bindings ++ b.bindings).map Prod.fst :=
          List.mem_map.mpr ⟨(name, e),
            List.mem_append_right _ (mem_bindings.mpr hb), rfl⟩
        have heq := beq_iff_eq.mp (h name hmem)
        rw [ha, hb] at heq
        cases heq
  · intro h name _
    exact beq_iff_eq.mpr (h name)

/-!
# An update of the sync log
-/

def updateLog (dir : Str) (f : SyncLogMeta -> SyncLogMeta) : Call σ Unit :=
  updateDirMeta dir fun dirMeta => .ok
    { dirMeta with syncLog := f dirMeta.syncLog }

/-- The world with another sync log in a directory. -/
def World.putLog (w : World σ) (dir : Str) (syncLog : SyncLogMeta) :
    World σ :=
  { w with dirs := w.dirs.put dir { w.dirMeta dir with syncLog := syncLog } }

section Updates

variable {w : World σ} {dir : Str} {f : SyncLogMeta -> SyncLogMeta}

private theorem updateLog_of_read (h : Answered 2 w) :
    updateLog dir f w =
      (if sameLog (f (w.dirMeta dir).syncLog) (w.dirMeta dir).syncLog = false
        then writeSyncLogMeta dir (f (w.dirMeta dir).syncLog)
        else pure ()) (w.skip 2) := by
  refine (bind_of_ok (readDirMetaPair_ok h dir)).trans ?_
  show (do
    if (w.dirMeta dir).redirect ≠ (w.dirMeta dir).redirect then
      writeRedirectMeta dir (w.dirMeta dir).redirect
    if sameLog (f (w.dirMeta dir).syncLog) (w.dirMeta dir).syncLog = false then
      writeSyncLogMeta dir (f (w.dirMeta dir).syncLog) : Call σ Unit)
        (w.skip 2) = _
  rw [if_neg (fun h => h rfl)]

theorem updateLog_same
    (hsame : sameLog (f (w.dirMeta dir).syncLog) (w.dirMeta dir).syncLog =
      true) :
    exists r n, updateLog dir f w = (r, w.skip n) := by
  by_cases h : Answered 2 w
  · refine ⟨.ok (), 2, ?_⟩
    rw [updateLog_of_read h, if_neg (by simp [hsame])]
    rfl
  · rcases readDirMetaPair_error h dir with ⟨e, n, hread⟩
    exact ⟨_, n, bind_of_error hread⟩

theorem updateLog_ok
    (hchanged : sameLog (f (w.dirMeta dir).syncLog) (w.dirMeta dir).syncLog =
      false) (h : Answered 3 w) :
    updateLog dir f w =
      (.ok (), (w.skip 3).putLog dir (f (w.dirMeta dir).syncLog)) := by
  rcases (answered_add 2 1 w).mp h with ⟨hread, hwrite⟩
  rw [updateLog_of_read hread, if_pos hchanged]
  have hcall := backendCall_ok hwrite
  rw [skip_skip] at hcall
  exact bind_of_ok hcall

theorem updateLog_error
    (hchanged : sameLog (f (w.dirMeta dir).syncLog) (w.dirMeta dir).syncLog =
      false) (h : ¬ Answered 3 w) :
    exists e n, updateLog dir f w = (.error e, w.skip n) := by
  by_cases hread : Answered 2 w
  · have hwrite : ¬ Answered 1 (w.skip 2) :=
      fun hwrite => h ((answered_add 2 1 w).mpr ⟨hread, hwrite⟩)
    rcases backendCall_error hwrite with ⟨message, hcall⟩
    rw [skip_skip] at hcall
    refine ⟨.backend message, 3, ?_⟩
    rw [updateLog_of_read hread, if_pos hchanged]
    exact bind_of_error hcall
  · rcases readDirMetaPair_error hread dir with ⟨e, n, hpair⟩
    exact ⟨e, n, bind_of_error hpair⟩

end Updates

/-!
# The record of a name
-/

def World.entryAt (w : World σ) (dir name : Str) : Option SyncLogEntry :=
  (w.dirMeta dir).syncLog.find name

@[simp] theorem entryAt_skip (w : World σ) (n : Nat) (dir name : Str) :
    (w.skip n).entryAt dir name = w.entryAt dir name :=
  rfl

theorem dirMeta_putLog (w : World σ) (dir : Str) (syncLog : SyncLogMeta)
    (dir' : Str) :
    (w.putLog dir syncLog).dirMeta dir' =
      if dir' = dir then { w.dirMeta dir with syncLog := syncLog }
      else w.dirMeta dir' := by
  rw [dirMeta, putLog, find_put]
  split <;> rfl

theorem entryAt_putLog (w : World σ) (dir : Str) (syncLog : SyncLogMeta)
    (dir' name : Str) :
    (w.putLog dir syncLog).entryAt dir' name =
      if dir' = dir then syncLog.find name else w.entryAt dir' name := by
  rw [entryAt, dirMeta_putLog]
  split <;> rfl

/-- Nothing but the record of one name, and what numbers and answers are still
to come, differs. -/
structure SameBut (dir name : Str) (w w' : World σ) : Prop where
  entries : forall d n, ¬ (d = dir ∧ n = name) ->
    w'.entryAt d n = w.entryAt d n
  redirect : forall d, (w'.dirMeta d).redirect = (w.dirMeta d).redirect
  pendingDirs : w'.pendingDirs = w.pendingDirs
  files : w'.files = w.files

theorem sameBut_skip (dir name : Str) (w : World σ) (n : Nat) :
    SameBut dir name w (w.skip n) where
  entries := fun _ _ _ => rfl
  redirect := fun _ => rfl
  pendingDirs := rfl
  files := rfl

theorem SameBut.trans {dir name : Str} {w w' w'' : World σ}
    (h : SameBut dir name w w') (h' : SameBut dir name w' w'') :
    SameBut dir name w w'' where
  entries := fun d n hne => (h'.entries d n hne).trans (h.entries d n hne)
  redirect := fun d => (h'.redirect d).trans (h.redirect d)
  pendingDirs := h'.pendingDirs.trans h.pendingDirs
  files := h'.files.trans h.files

theorem sameBut_putLog {dir name : Str} (w : World σ) {syncLog : SyncLogMeta}
    (h : forall n, n ≠ name ->
      syncLog.find n = (w.dirMeta dir).syncLog.find n) :
    SameBut dir name w (w.putLog dir syncLog) where
  entries := by
    intro d n hne
    rw [entryAt_putLog]
    split
    · rename_i hd
      rw [hd, h n fun hn => hne ⟨hd, hn⟩]
      rfl
    · rfl
  redirect := by
    intro d
    rw [dirMeta_putLog]
    split
    · rename_i hd
      rw [hd]
    · rfl
  pendingDirs := rfl
  files := rfl

/-!
# Preparing
-/

/-- A prepared record is the new entry under its name. -/
structure PreparedFrom (path : Str) (op : SyncOp) (prepared : Prepared)
    (w w' : World σ) : Prop where
  dir : prepared.dir = parentDir path
  name : prepared.name = fileName path
  seq : prepared.seq = w.nextSeq
  entry : w'.entryAt prepared.dir prepared.name =
    some (SyncLogEntry.new prepared.seq op)
  same : SameBut prepared.dir prepared.name w w'

private theorem nextSeq_ok {w w' : World σ} {seq : Nat}
    (h : nextSeq w = (.ok seq, w')) :
    seq = w.nextSeq ∧ forall dir name, SameBut dir name w w' ∧
      w'.entryAt dir name = w.entryAt dir name := by
  have hcall : forall {v v' : World σ},
      backendCall v = (.ok (), v') -> v' = v.skip 1 := by
    intro v v' hok
    by_cases hanswered : Answered 1 v
    · rw [backendCall_ok hanswered] at hok
      cases hok
      rfl
    · rcases backendCall_error hanswered with ⟨message, herror⟩
      rw [herror] at hok
      cases hok
  rcases exists_of_bind_ok h with ⟨_, w₁, hread, h⟩
  rcases exists_of_bind_ok h with ⟨n, w₂, hseq, h⟩
  rcases exists_of_bind_ok h with ⟨_, w₃, hdirs, h⟩
  rcases exists_of_bind_ok h with ⟨_, w₄, hwrite, h⟩
  rcases exists_of_bind_ok h with ⟨_, w₅, hstore, h⟩
  have h₁ := hcall hread
  cases hseq
  have h₃ := hcall hdirs
  have h₄ := hcall hwrite
  cases hstore
  cases h
  subst h₁ h₃ h₄
  refine ⟨rfl, fun dir name => ⟨⟨fun _ _ _ => rfl, fun _ => rfl, rfl, rfl⟩, rfl⟩⟩

theorem prepareEntry_ok {path : Str} {op : SyncOp} {w w' : World σ}
    {prepared : Prepared}
    (h : prepareEntry path op w = (.ok prepared, w')) :
    PreparedFrom path op prepared w w' := by
  rcases exists_of_bind_ok h with ⟨seq, w₁, hseq, h⟩
  rcases exists_of_bind_ok h with ⟨_, w₂, hupdate, h⟩
  cases h
  rcases nextSeq_ok hseq with ⟨hnext, hsame₁⟩
  change updateLog (parentDir path) (fun syncLog =>
    syncLog.put (fileName path) (new seq op)) w₁ = _ at hupdate
  have hput : forall n, n ≠ fileName path ->
      ((w₁.dirMeta (parentDir path)).syncLog.put (fileName path)
        (new seq op)).find n =
        (w₁.dirMeta (parentDir path)).syncLog.find n :=
    fun n hn => find_put_ne _ _ hn
  cases hchanged : sameLog ((w₁.dirMeta (parentDir path)).syncLog.put
      (fileName path) (new seq op))
      (w₁.dirMeta (parentDir path)).syncLog with
  | true =>
    rcases updateLog_same (f := fun syncLog : SyncLogMeta =>
      syncLog.put (fileName path) (new seq op)) hchanged
      with ⟨r, n, hrun⟩
    rw [hrun] at hupdate
    cases hupdate
    have hentry := sameLog_iff.mp hchanged (fileName path)
    rw [find_put_self] at hentry
    exact
      { dir := rfl
        name := rfl
        seq := hnext
        entry := hentry.symm
        same := (hsame₁ _ _).1.trans (sameBut_skip _ _ w₁ n) }
  | false =>
    by_cases hanswered : Answered 3 w₁
    · rw [updateLog_ok (f := fun syncLog : SyncLogMeta =>
        syncLog.put (fileName path) (new seq op))
        hchanged hanswered] at hupdate
      cases hupdate
      exact
        { dir := rfl
          name := rfl
          seq := hnext
          entry := by
            rw [entryAt_putLog, if_pos rfl, find_put_self]
          same := (hsame₁ _ _).1.trans
            ((sameBut_skip _ _ w₁ 3).trans (sameBut_putLog _ hput)) }
    · rcases updateLog_error (f := fun syncLog : SyncLogMeta =>
        syncLog.put (fileName path) (new seq op))
        hchanged hanswered with ⟨e, n, hrun⟩
      rw [hrun] at hupdate
      cases hupdate

/-!
# Taking the record back
-/

private theorem takeBack_eq (prepared : Prepared) :
    (takeBack prepared : Call σ Unit) = updateLog prepared.dir (fun syncLog =>
      if shouldRemove prepared syncLog then
        del syncLog prepared.name
      else syncLog) := by
  rw [takeBack, updateLog]
  congr 1
  funext dirMeta
  split <;> rfl

/-- The clean-up deletes the record when the backend answers it, and leaves it
when the backend does not. -/
theorem takeBack_entry {prepared : Prepared} {op : SyncOp}
    (hentry : w.entryAt prepared.dir prepared.name =
      some (new prepared.seq op)) :
    SameBut prepared.dir prepared.name w (takeBack prepared w).2 ∧
      (takeBack prepared w).2.entryAt prepared.dir prepared.name =
        if Answered 3 w then none
        else some (new prepared.seq op) := by
  have hremove : shouldRemove prepared (w.dirMeta prepared.dir).syncLog =
      true := by
    rw [entryAt] at hentry
    rw [shouldRemove, hentry]
    simp [new]
  have hchanged : sameLog
      (if shouldRemove prepared (w.dirMeta prepared.dir).syncLog then
        del (w.dirMeta prepared.dir).syncLog prepared.name
      else (w.dirMeta prepared.dir).syncLog)
      (w.dirMeta prepared.dir).syncLog = false := by
    rw [if_pos hremove, Bool.eq_false_iff]
    intro hsame
    have hname := sameLog_iff.mp hsame prepared.name
    rw [find_del_self] at hname
    rw [entryAt, ← hname] at hentry
    cases hentry
  rw [takeBack_eq]
  by_cases hanswered : Answered 3 w
  · rw [updateLog_ok (f := fun syncLog : SyncLogMeta =>
      if shouldRemove prepared syncLog then
        del syncLog prepared.name else syncLog) hchanged hanswered,
      if_pos hanswered, if_pos hremove]
    constructor
    · apply (sameBut_skip _ _ w 3).trans
      apply sameBut_putLog
      intro n hn
      exact find_del_ne _ hn
    · rw [entryAt_putLog, if_pos rfl, find_del_self]
  · rcases updateLog_error (f := fun syncLog : SyncLogMeta =>
      if shouldRemove prepared syncLog then
        del syncLog prepared.name else syncLog) hchanged hanswered
      with ⟨e, n, hrun⟩
    rw [hrun, if_neg hanswered]
    exact ⟨sameBut_skip _ _ w n, hentry⟩

/-!
# The failed call
-/

/-- What the failed call needs to leave the record of the name as it was: no
record is written, or there was none and the clean-up, which starts in the
second world, is answered.  The last case is a record like the one that is
prepared, left there because the clean-up is not answered. -/
def GivenBack (path : Str) (w w₁ : World σ) : Option SyncOp -> Prop
  | none => True
  | some op =>
    (w.entryAt (parentDir path) (fileName path) = none ∧ Answered 3 w₁) ∨
    (w.entryAt (parentDir path) (fileName path) =
      some (SyncLogEntry.new w.nextSeq op) ∧ ¬ Answered 3 w₁)

/-- A call whose primary operation fails without effect answers that error and
changes at most the record of its name, which is given back exactly when there
was none. -/
theorem failed_write_log_iff (config : Config) {path : Str}
    {syncOp : Option SyncOp} {primaryFn : Call σ α} (fanoutWrite : Call σ Unit)
    {w w₁ : World σ} {prepared : Option Prepared} {err : Error}
    (hprepare : prepare path syncOp w = (.ok prepared, w₁))
    (hfail : primaryFn w₁ = (.error err, w₁)) :
    exists w' : World σ,
      executeWrite config path syncOp primaryFn fanoutWrite w =
        (.error err, w') ∧
      SameBut (parentDir path) (fileName path) w w' ∧
      (w'.entryAt (parentDir path) (fileName path) =
          w.entryAt (parentDir path) (fileName path) <->
        GivenBack path w w₁ syncOp) := by
  have hrun : executeWrite config path syncOp primaryFn fanoutWrite w =
      (.error err, takeBackPrepared prepared w₁) := by
    refine (bind_of_ok hprepare).trans ?_
    simp only [hfail]
  refine ⟨takeBackPrepared prepared w₁, hrun, ?_⟩
  cases syncOp with
  | none =>
    cases hprepare
    exact ⟨sameBut_skip _ _ w 0, iff_of_true rfl trivial⟩
  | some op =>
    rcases exists_of_bind_ok hprepare with ⟨p, mid, hentry, h⟩
    cases h
    have hprepared := prepareEntry_ok hentry
    rcases takeBack_entry hprepared.entry with ⟨hsame, hafter⟩
    have hboth := hprepared.same.trans hsame
    rw [hprepared.seq, hprepared.dir, hprepared.name] at hafter
    rw [hprepared.dir, hprepared.name] at hboth
    refine ⟨hboth, ?_⟩
    rw [takeBackPrepared, hafter, GivenBack]
    by_cases hanswered : Answered 3 w₁
    · rw [if_pos hanswered]
      simp [hanswered, eq_comm]
    · rw [if_neg hanswered]
      simp [hanswered, eq_comm]

/-- A world in which every access is answered. -/
def quietWorld : World Unit where
  dirs := ∅
  nextSeq := 1
  pendingDirs := []
  files := ()
  answers := []

def oneBackup : Config where
  writeBackups := ["b".toList]
  isExcluded := fun _ _ _ => false

/-- A create that finds the file there. -/
def createRefused : Call Unit Unit :=
  fail (.backend "already exists".toList)

/-- A file is written and the backup has not acknowledged it yet. -/
def writtenWorld : World Unit :=
  (executeWrite oneBackup "/d/f".toList (some (.syncFile 10))
    (pure ()) (pure ()) quietWorld).2

/-- A refused create of another name gives its record back and leaves the one
of the written file alone. -/
theorem failed_write_log_new_name :
    exists w' : World Unit,
      executeWrite oneBackup "/d/g".toList (some .create) createRefused
        (pure ()) writtenWorld =
          (.error (.backend "already exists".toList), w') ∧
      w'.entryAt "/d".toList "g".toList = none ∧
      w'.entryAt "/d".toList "f".toList =
        some { latestSeq := 1, primaryCommitted := true,
               op := .syncFile 10, backends := ∅ } := by
  rcases failed_write_log_iff oneBackup (pure ())
      (show prepare "/d/g".toList (some .create) writtenWorld =
        (.ok (some ⟨"/d".toList, "g".toList, 2⟩), _) from rfl)
      (show createRefused _ = _ from rfl) with ⟨w', hrun, hsame, hiff⟩
  have hnone : writtenWorld.entryAt (parentDir "/d/g".toList)
      (fileName "/d/g".toList) = none := by
    decide +kernel
  have hback := hiff.mpr (.inl ⟨hnone, by decide +kernel⟩)
  refine ⟨w', hrun, hback.trans hnone, ?_⟩
  rw [hsame.entries "/d".toList "f".toList (by decide +kernel)]
  decide +kernel

/-- Then `create` of the same path is refused, and what the backup still needs
is forgotten. -/
theorem refused_create_drops_pending_write :
    writtenWorld.entryAt "/d".toList "f".toList =
        some { latestSeq := 1, primaryCommitted := true,
               op := .syncFile 10, backends := ∅ } ∧
      (executeWrite oneBackup "/d/f".toList (some .create) createRefused
        (pure ()) writtenWorld).1 = .error (.backend "already exists".toList) ∧
      (executeWrite oneBackup "/d/f".toList (some .create) createRefused
        (pure ()) writtenWorld).2.entryAt "/d".toList "f".toList = none := by
  decide +kernel

end MultiWrite
end OpenViking
