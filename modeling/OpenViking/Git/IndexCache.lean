import OpenViking.Git.FullCommit

/-!
# The commit index over whole runs

A session is a working tree, one branch and a clock.  The same sequence of
writes, deletes and commits is run by a service with an index store and by a
service without one.
-/

namespace OpenViking
namespace Git

open Paths WorkTree

structure Session where
  now : Int
  vfs : WorkTree
  branch : Branch

inductive Event where
  | tick (ns : Nat)
  | write (path : Path) (data : Bytes)
  | delete (path : Path)
  | commit (paths : Option (List Str)) (info : CommitInfo)

abbrev Outcome := Except GitError CommitResponse

/-- A failed file call leaves the working tree as it was. -/
def fileStep (s : Session) (result : Except FsError WorkTree) : Session :=
  match result with
  | .ok vfs => { s with vfs := vfs }
  | .error _ => s

def sessionStep (parse : IgnoreParser) (indexStore : Bool) (s : Session) :
    Event -> Session × Option Outcome
  | .tick ns => ({ s with now := s.now + ns }, none)
  | .write path data =>
    (fileStep s (match s.vfs.ensureParentDirs s.now path with
      | .ok vfs => vfs.write s.now path data
      | .error e => .error e), none)
  | .delete path => (fileStep s (s.vfs.remove path), none)
  | .commit paths info =>
    match commit parse indexStore s.now s.vfs paths info s.branch with
    | .ok (response, branch) =>
      ({ s with branch := branch }, some (.ok response))
    | .error e => (s, some (.error e))

/-- The outcomes of all commits of a run. -/
def outcomes (parse : IgnoreParser) (indexStore : Bool) :
    Session -> List Event -> List Outcome
  | _, [] => []
  | s, event :: rest =>
    let (s', outcome) := sessionStep parse indexStore s event
    outcome.toList ++ outcomes parse indexStore s' rest

/-!
# File calls touch only what they stamp
-/

/-- Every path reads as before, is gone, or is stamped with `now`. -/
def Touched (now : Int) (w w' : WorkTree) : Prop :=
  forall q, w'.node? q = w.node? q ∨ w'.node? q = none ∨
    (exists data, w'.node? q = some (.file data now)) ∨
    w'.node? q = some (.dir now)

theorem Touched.refl (now : Int) (w : WorkTree) : Touched now w w :=
  fun _ => .inl rfl

variable {now : Int}

theorem Touched.trans {w w₁ w₂ : WorkTree}
    (h : Touched now w w₁) (h' : Touched now w₁ w₂) : Touched now w w₂ := by
  intro q
  rcases h' q with heq | hrest
  · rw [heq]
    exact h q
  · exact .inr hrest

variable {w w' : WorkTree}

variable {p : Path}

private theorem touched_of_node? {node : Option Node}
    (h : forall q, w'.node? q = if q = p then node else w.node? q)
    (hnode : node = none ∨ (exists data, node = some (.file data now)) ∨
      node = some (.dir now)) : Touched now w w' := by
  intro q
  rw [h]
  by_cases hq : q = p
  · rw [if_pos hq]
    exact .inr hnode
  · rw [if_neg hq]
    exact .inl rfl

theorem touched_mkdir (h : w.mkdir now p = .ok w') : Touched now w w' :=
  touched_of_node? (mkdir_inv h).2.2 (Or.inr (Or.inr rfl))

theorem touched_write {data : Bytes} (h : w.write now p data = .ok w') :
    Touched now w w' :=
  touched_of_node? (write_inv h).2.2 (Or.inr (Or.inl ⟨data, rfl⟩))

theorem touched_remove (now : Int)
    (h : w.remove p = .ok w') : Touched now w w' :=
  touched_of_node? (remove_inv h).2 (Or.inl rfl)

theorem touched_ensureDirs {done todo : Path}
    (h : w.ensureDirs now done todo = .ok w') : Touched now w w' := by
  induction todo generalizing w done with
  | nil =>
    rw [ensureDirs] at h
    cases h
    exact Touched.refl now _
  | cons name rest ih =>
    rw [ensureDirs] at h
    cases hmk : w.mkdir now (done ++ [name]) with
    | ok w₁ =>
      rw [hmk] at h
      exact (touched_mkdir hmk).trans (ih h)
    | error e =>
      rw [hmk] at h
      cases e with
      | alreadyExists q => exact ih h
      | _ => cases h

/-!
# Trusted entries are truthful
-/

/-- A cached oid that the loop would use is the oid of the file on disk. -/
def HonestIndex (vfs : WorkTree) (index : Option CommitIndex) : Prop :=
  forall p info oid, vfs.stat p = .ok info ->
    cachedOid index p info = some oid -> vfs.fileAt p = some oid.bytes

/--
Every entry that the racy-clean guard trusts, and that agrees with the size
and mtime of its path, has the oid of the file on disk.
-/
def TruthfulIndex (vfs : WorkTree) (index : CommitIndex) : Prop :=
  forall saved q entry, index.savedAtNs = some saved ->
    index.entries.find q = some entry -> entry.mtimeNs < saved ->
      forall info, vfs.stat q = .ok info ->
        statSignature info = some (entry.size, entry.mtimeNs) ->
          vfs.fileAt q = some entry.oid.bytes

/-- The stored index is truthful and was not written in the future. -/
structure SessionInv (s : Session) : Prop where
  wellFormed : (headTree s.branch.head).WellFormed
  truthful : forall index, s.branch.index = some index ->
    TruthfulIndex s.vfs index
  saved : forall index time, s.branch.index = some index ->
    index.savedAtNs = some time -> time ≤ s.now

variable {s : Session}

theorem honest_usedIndex (h : SessionInv s) (store : Bool) :
    HonestIndex s.vfs (usedIndex store s.branch) := by
  intro p info oid hstat hcached
  have hused : forall index, usedIndex store s.branch = some index ->
      s.branch.index = some index := by
    intro index hindex
    unfold usedIndex loadIndex at hindex
    split at hindex
    · split at hindex
      · split at hindex
        · rename_i hidx _
          rw [hidx]
          exact hindex
        · cases hindex
      · cases hindex
    · cases hindex
  cases hidx : usedIndex store s.branch with
  | none => simp [cachedOid, hidx] at hcached
  | some index =>
    rw [hidx] at hcached
    unfold cachedOid at hcached
    simp only [Option.bind_some] at hcached
    split at hcached
    · rename_i entry size mtimeNs saved hentry hsig hsaved
      split at hcached
      · rename_i hmatch
        cases hcached
        apply h.truthful index (hused index hidx) saved p entry hsaved hentry
        · rw [hmatch.2.1]
          exact hmatch.2.2
        · exact hstat
        · rw [hmatch.1, hmatch.2.1]
          exact hsig
      · cases hcached
    · cases hcached

theorem TruthfulIndex.touched
    {index : CommitIndex} (h : TruthfulIndex w index)
    (hsaved : forall time, index.savedAtNs = some time -> time ≤ now)
    (htouch : Touched now w w') : TruthfulIndex w' index := by
  intro saved q entry hs hfind hlt info hstat hsig
  have hle := hsaved saved hs
  rcases htouch q with heq | hgone | ⟨data, hfile⟩ | hdir
  · have hstat' : w.stat q = .ok info := by
      rw [← hstat, stat, stat, heq]
    have hold := h saved q entry hs hfind hlt info hstat' hsig
    rw [← hold, fileAt, fileAt, heq]
  · rw [stat, hgone] at hstat
    cases hstat
  · -- A path stamped with the current time is younger than the index.
    rw [stat, hfile] at hstat
    cases hstat
    unfold statSignature at hsig
    split at hsig
    · cases hsig
    · have hmtime : now = entry.mtimeNs := by
        have := congrArg (Option.map Prod.snd) hsig
        simpa using this
      omega
  · rw [stat, hdir] at hstat
    cases hstat
    unfold statSignature at hsig
    split at hsig
    · cases hsig
    · have hmtime : now = entry.mtimeNs := by
        have := congrArg (Option.map Prod.snd) hsig
        simpa using this
      omega

/-!
# The index does not change a commit
-/

variable {index : Option CommitIndex} {vfs : WorkTree}

theorem candidateOid_index
    (hindex : HonestIndex vfs index) {info : FileInfo}
    (hstat : vfs.stat p = .ok info) :
    candidateOid vfs index p info = candidateOid vfs none p info := by
  have hnone : cachedOid none p info = none := by simp [cachedOid]
  unfold candidateOid
  rw [hnone]
  cases hcached : cachedOid index p info with
  | none => rfl
  | some oid =>
    simp only
    rw [read_of_fileAt (hindex p info oid hstat hcached)]

theorem HonestIndex.fileAt (hindex : HonestIndex vfs index) {oid : BlobId}
    (h : seenOid vfs index p = some oid) :
    vfs.fileAt p = some oid.bytes := by
  rcases seenOid_eq_some_iff.mp h with ⟨info, hstat, hoid⟩
  cases hcached : cachedOid index p info with
  | some cached =>
    unfold candidateOid at hoid
    rw [hcached] at hoid
    cases hoid
    exact hindex p info oid hstat hcached
  | none =>
    unfold candidateOid WorkTree.read at hoid
    rw [hcached] at hoid
    cases hnode : vfs.node? p with
    | none => simp [hnode] at hoid
    | some node =>
      cases node with
      | dir modTime => simp [hnode] at hoid
      | file data modTime =>
        simp only [hnode, Except.ok.injEq] at hoid
        exact fileAt_eq_some_iff.mpr ⟨modTime, by rw [hnode, ← hoid]⟩

/-- Two loop results that differ in their index entries only. -/
def SameEdits (r r' : Except GitError LoopState) : Prop :=
  r.map (fun s => (s.editor, s.changed)) =
    r'.map (fun s => (s.editor, s.changed))

theorem processCandidate_sameEdits (prevTree : Tree) (hindex : HonestIndex vfs index)
    {s s' : LoopState} (heditor : s.editor = s'.editor)
    (hchanged : s.changed = s'.changed) (p : Path) :
    SameEdits (processCandidate vfs prevTree index s p)
      (processCandidate vfs prevTree none s' p) := by
  unfold SameEdits processCandidate
  cases hstat : vfs.stat p with
  | ok info =>
    simp only [candidateOid_index hindex hstat, heditor, hchanged]
    cases candidateOid vfs none p info with
    | error e => rfl
    | ok oid =>
      simp only [bind, Except.bind, pure, Except.pure]
      split
      · cases s'.editor.upsert p oid <;> rfl
      · rfl
  | error e =>
    simp only [heditor, hchanged]
    split
    · split
      · cases s'.editor.remove p <;> rfl
      · rfl
    · rfl

theorem loop_sameEdits (prevTree : Tree) (hindex : HonestIndex vfs index)
    (cs : List Path) (s s' : LoopState) (heditor : s.editor = s'.editor)
    (hchanged : s.changed = s'.changed) :
    SameEdits (cs.foldlM (processCandidate vfs prevTree index) s)
      (cs.foldlM (processCandidate vfs prevTree none) s') := by
  induction cs generalizing s s' with
  | nil =>
    simp [SameEdits, pure, Except.pure, Except.map, heditor, hchanged]
  | cons p rest ih =>
    rw [List.foldlM_cons, List.foldlM_cons]
    have hstep := processCandidate_sameEdits prevTree hindex heditor hchanged p
    unfold SameEdits at hstep
    cases hrun : processCandidate vfs prevTree index s p with
    | error e =>
      cases hrun' : processCandidate vfs prevTree none s' p with
      | error e' =>
        rw [hrun, hrun'] at hstep
        cases hstep
        rfl
      | ok s₁' =>
        rw [hrun, hrun'] at hstep
        cases hstep
    | ok s₁ =>
      cases hrun' : processCandidate vfs prevTree none s' p with
      | error e' =>
        rw [hrun, hrun'] at hstep
        cases hstep
      | ok s₁' =>
        rw [hrun, hrun'] at hstep
        have hpair : (s₁.editor, s₁.changed) = (s₁'.editor, s₁'.changed) := by
          simpa [Except.map] using hstep
        exact ih _ _ (congrArg Prod.fst hpair) (congrArg Prod.snd hpair)

/-- The parts of a plan that decide the response and the new head. -/
def planResult (plan : CommitPlan) : TreeEditor × Nat × Nat :=
  (plan.editor, plan.changed, plan.ignored)

theorem planCommit_index (parse : IgnoreParser)
    (head : Option CommitId)
    (hindex : HonestIndex vfs index) (paths : Option (List Path)) :
    (planCommit parse vfs head index paths).map planResult =
      (planCommit parse vfs head none paths).map planResult := by
  unfold planCommit
  cases loadIgnoreMatcher parse vfs with
  | error e => rfl
  | ok matcher =>
    simp only [bind, Except.bind, pure, Except.pure]
    cases Scan.classify matcher (headTree head).paths vfs paths
        (Scan.start (TreeEditor.fromTree (headTree head))) with
    | error e => rfl
    | ok scan =>
      have hloop := loop_sameEdits (headTree head) hindex
        (orderedSet scan.candidates)
        { editor := scan.editor
          changed := scan.changed
          entries := seedEntries matcher paths index scan }
        { editor := scan.editor
          changed := scan.changed
          entries := seedEntries matcher paths none scan } rfl rfl
      unfold SameEdits at hloop
      simp only
      cases hrun : (orderedSet scan.candidates).foldlM
          (processCandidate vfs (headTree head) index)
          { editor := scan.editor
            changed := scan.changed
            entries := seedEntries matcher paths index scan } with
      | error e =>
        cases hrun' : (orderedSet scan.candidates).foldlM
            (processCandidate vfs (headTree head) none)
            { editor := scan.editor
              changed := scan.changed
              entries := seedEntries matcher paths none scan } with
        | error e' =>
          rw [hrun, hrun'] at hloop
          cases hloop
          rfl
        | ok s' =>
          rw [hrun, hrun'] at hloop
          cases hloop
      | ok s =>
        cases hrun' : (orderedSet scan.candidates).foldlM
            (processCandidate vfs (headTree head) none)
            { editor := scan.editor
              changed := scan.changed
              entries := seedEntries matcher paths none scan } with
        | error e' =>
          rw [hrun, hrun'] at hloop
          cases hloop
        | ok s' =>
          rw [hrun, hrun'] at hloop
          have hpair : (s.editor, s.changed) = (s'.editor, s'.changed) := by
            simpa [Except.map] using hloop
          simpa [Except.map, planResult] using hpair

/-!
# One commit call
-/

variable {branch : Branch}

/-- Branches with the same head, whatever their index files say. -/
theorem commitImpl_index (parse : IgnoreParser) (now : Int)
    (paths : Option (List Path)) (info : CommitInfo)
    {branch' : Branch} (hhead : branch'.head = branch.head)
    (hindex : HonestIndex vfs (usedIndex true branch)) :
    (commitImpl parse true now vfs paths info branch).map
        (fun r => (r.1, r.2.head)) =
      (commitImpl parse false now vfs paths info branch').map
        (fun r => (r.1, r.2.head)) := by
  have hplan := planCommit_index parse branch.head hindex paths
  unfold usedIndex at hplan
  simp only [if_true] at hplan
  unfold commitImpl
  simp only [hhead, bind, Except.bind, pure, Except.pure, if_true,
    Bool.false_eq_true, if_false]
  cases hrun : planCommit parse vfs branch.head (loadIndex branch) paths with
  | error e =>
    cases hrun' : planCommit parse vfs branch.head none paths with
    | error e' =>
      rw [hrun, hrun'] at hplan
      cases hplan
      rfl
    | ok plan' =>
      rw [hrun, hrun'] at hplan
      cases hplan
  | ok plan =>
    cases hrun' : planCommit parse vfs branch.head none paths with
    | error e' =>
      rw [hrun, hrun'] at hplan
      cases hplan
    | ok plan' =>
      rw [hrun, hrun'] at hplan
      simp only [Except.map, planResult, Except.ok.injEq, Prod.mk.injEq] at hplan
      rcases hplan with ⟨heditor, hchanged, hignored⟩
      simp only [heditor, hchanged, hignored]
      split <;> rfl

variable {parse : IgnoreParser} {paths : Option (List Path)}

theorem planCommit_ok_inv
    {head : Option CommitId} {plan : CommitPlan}
    (hwf : (headTree head).WellFormed) (hindex : HonestIndex vfs index)
    (h : planCommit parse vfs head index paths = .ok plan) :
    exists matcher, loadIgnoreMatcher parse vfs = .ok matcher ∧
      plan.editor.write.WellFormed ∧
      forall q entry, plan.entries.find q = some entry ->
        CarriedOver matcher vfs paths index q entry ∨
          vfs.fileAt q = some entry.oid.bytes := by
  cases hmatcher : loadIgnoreMatcher parse vfs with
  | error e =>
    unfold planCommit at h
    rw [hmatcher] at h
    cases h
  | ok matcher =>
    have hread : forall p, Candidate matcher vfs (headTree head) paths p ->
        Readable vfs index p := by
      intro p hp
      by_contra hnot
      rcases planCommit_error hmatcher hwf ⟨p, hp, hnot⟩ with ⟨e, herror⟩
      rw [h] at herror
      cases herror
    rcases planCommit_ok hmatcher hwf hread with
      ⟨plan', hrun, hvalid, _, _, hentries⟩
    rw [h] at hrun
    cases hrun
    refine ⟨matcher, rfl, TreeEditor.write_wellFormed hvalid, ?_⟩
    intro q entry hfind
    exact (hentries q entry hfind).imp_right fun hseen => hindex.fileAt hseen.1

/-!
# Scoped commits that carry racy entries over
-/

/--
A partial commit takes over an entry that its index does not trust, and the
file was rewritten with the same size in the tick of its old mtime.
-/
def CarriesStale (matcher : IgnoreMatcher) (s : Session) (ps : List Path) :
    Prop :=
  exists index q entry, loadIndex s.branch = some index ∧
    CarriedOver matcher s.vfs (some ps) (some index) q entry ∧
    ¬ (exists saved, index.savedAtNs = some saved ∧
      entry.mtimeNs < saved) ∧
    entry.mtimeNs < s.now ∧
    (exists info, s.vfs.stat q = .ok info ∧
      statSignature info = some (entry.size, entry.mtimeNs)) ∧
    s.vfs.fileAt q ≠ some entry.oid.bytes

def CleanEvent (parse : IgnoreParser) (s : Session) : Event -> Prop
  | .commit (some paths) _ =>
    forall matcher ps, loadIgnoreMatcher parse s.vfs = .ok matcher ->
      paths.mapM validateRelativePath = .ok ps ->
        ¬ CarriesStale matcher s ps
  | _ => True

/-- Every event of a run with an index store is clean when it happens. -/
def CleanRun (parse : IgnoreParser) : Session -> List Event -> Prop
  | _, [] => True
  | s, event :: rest =>
    CleanEvent parse s event ∧
      CleanRun parse (sessionStep parse true s event).1 rest

private theorem loadIndex_stored {index : CommitIndex}
    (h : loadIndex branch = some index) : branch.index = some index := by
  unfold loadIndex at h
  split at h
  · split at h
    · rename_i hindex _
      rw [hindex]
      exact h
    · cases h
  · cases h

theorem SessionInv.files {w : WorkTree} (h : SessionInv s)
    (htouch : Touched s.now s.vfs w) : SessionInv { s with vfs := w } where
  wellFormed := h.wellFormed
  truthful := fun index hindex =>
    (h.truthful index hindex).touched (fun time => h.saved index time hindex)
      htouch
  saved := h.saved

theorem truthful_saveIndex {plan : CommitPlan} (h : SessionInv s)
    (hclean : forall matcher ps, loadIgnoreMatcher parse s.vfs =
      .ok matcher -> paths = some ps -> ¬ CarriesStale matcher s ps)
    (hplan : planCommit parse s.vfs s.branch.head (loadIndex s.branch) paths =
      .ok plan) (parent : CommitId) :
    TruthfulIndex s.vfs (saveIndex s.now parent plan.entries) := by
  rcases planCommit_ok_inv h.wellFormed (honest_usedIndex h true) hplan with
    ⟨matcher, hmatcher, _, hentries⟩
  intro saved q entry hsaved hfind hlt info hstat hsig
  have hnow : saved = s.now := by
    unfold saveIndex at hsaved
    split at hsaved
    · cases hsaved
    · cases hsaved
      rfl
  rcases hentries q entry hfind with hcarried | hfile
  · rcases hcarried with ⟨ps, index, hps, hload, hrest⟩
    by_cases htrusted : exists old, index.savedAtNs = some old ∧
        entry.mtimeNs < old
    · rcases htrusted with ⟨old, hold, hltold⟩
      exact h.truthful index (loadIndex_stored hload) old q entry hold
        hrest.1 hltold info hstat hsig
    · by_contra hstale
      apply hclean matcher ps hmatcher hps
      refine ⟨index, q, entry, hload, ⟨ps, index, rfl, rfl, hrest⟩, htrusted,
        ?_, ⟨info, hstat, hsig⟩, hstale⟩
      rw [← hnow]
      exact hlt
  · exact hfile

/-- A successful call keeps the invariant. -/
theorem SessionInv.commit {info : CommitInfo}
    {response : CommitResponse} (h : SessionInv s)
    (hclean : forall matcher ps, loadIgnoreMatcher parse s.vfs =
      .ok matcher -> paths = some ps -> ¬ CarriesStale matcher s ps)
    (hrun : commitImpl parse true s.now s.vfs paths info s.branch =
      .ok (response, branch)) :
    SessionInv { s with branch := branch } := by
  have hinv : forall (parent : CommitId) (plan : CommitPlan),
      planCommit parse s.vfs s.branch.head (loadIndex s.branch) paths =
        .ok plan ->
      (headTree (some parent)).WellFormed ->
      SessionInv { s with branch := {
        head := some parent
        index := some (saveIndex s.now parent plan.entries) } } := by
    intro parent plan hplan hwf
    constructor
    · exact hwf
    · intro index hindex
      cases hindex
      exact truthful_saveIndex h hclean hplan parent
    · intro index time hindex htime
      cases hindex
      simp only [saveIndex] at htime
      split at htime
      · cases htime
      · cases htime
        exact le_refl _
  unfold commitImpl at hrun
  simp only [if_true, bind, Except.bind, pure, Except.pure] at hrun
  cases hplan : planCommit parse s.vfs s.branch.head (loadIndex s.branch)
      paths with
  | error e =>
    rw [hplan] at hrun
    cases hrun
  | ok plan =>
    rw [hplan] at hrun
    simp only at hrun
    rcases planCommit_ok_inv h.wellFormed (honest_usedIndex h true) hplan
      with ⟨_, _, hwrite, _⟩
    split at hrun
    · cases hhead : s.branch.head with
      | none =>
        rw [hhead] at hrun
        cases hrun
        exact ⟨trivial, h.truthful, h.saved⟩
      | some parent =>
        rw [hhead] at hrun
        cases hrun
        have hwf := h.wellFormed
        rw [hhead] at hwf
        exact hinv parent plan hplan hwf
    · cases hrun
      refine hinv _ plan hplan ?_
      simpa [headTree] using hwrite

/-!
# Runs with and without an index store
-/

/-- Two sessions that agree on everything but the index. -/
structure SameSession (s s' : Session) : Prop where
  now : s'.now = s.now
  vfs : s'.vfs = s.vfs
  head : s'.branch.head = s.branch.head

/-- The request paths of a commit after their check. -/
def requestPaths : Option (List Str) -> Except GitError (Option (List Path))
  | none => .ok none
  | some ps => (ps.mapM validateRelativePath).map some

theorem commit_eq_bind (parse : IgnoreParser) (indexStore : Bool)
    (now : Int) (vfs : WorkTree) (paths : Option (List Str))
    (info : CommitInfo) (branch : Branch) :
    commit parse indexStore now vfs paths info branch =
      (requestPaths paths).bind fun rels =>
        commitImpl parse indexStore now vfs rels info branch := by
  cases paths with
  | none => rfl
  | some ps =>
    simp only [commit, requestPaths, bind]
    cases ps.mapM validateRelativePath <;> rfl

private theorem fileStep_index (s' : Session) (h : SessionInv s)
    (hsame : SameSession s s') {result : Except FsError WorkTree}
    (htouch : forall w, result = .ok w -> Touched s.now s.vfs w) :
    SessionInv (fileStep s result) ∧
      SameSession (fileStep s result) (fileStep s' result) := by
  cases result with
  | error e => exact ⟨h, hsame⟩
  | ok w => exact ⟨h.files (htouch w rfl), hsame.now, rfl, hsame.head⟩

theorem sessionStep_index {s s' : Session}
    {event : Event} (h : SessionInv s) (hsame : SameSession s s')
    (hclean : CleanEvent parse s event) :
    (sessionStep parse true s event).2 =
        (sessionStep parse false s' event).2 ∧
      SessionInv (sessionStep parse true s event).1 ∧
      SameSession (sessionStep parse true s event).1
        (sessionStep parse false s' event).1 := by
  rcases s' with ⟨now', vfs', branch'⟩
  rcases hsame with ⟨hnow, hvfs, hhead⟩
  simp only at hnow hvfs hhead
  subst hnow hvfs
  cases event with
  | tick ns =>
    refine ⟨rfl, ⟨h.wellFormed, h.truthful, ?_⟩, rfl, rfl, hhead⟩
    intro index time hindex htime
    have hle := h.saved index time hindex htime
    simp only [sessionStep]
    omega
  | write path data =>
    refine ⟨rfl, fileStep_index ⟨s.now, s.vfs, branch'⟩ h ⟨rfl, rfl, hhead⟩ ?_⟩
    intro w hw
    cases hdirs : s.vfs.ensureParentDirs s.now path with
    | error e =>
      rw [hdirs] at hw
      cases hw
    | ok w₁ =>
      rw [hdirs] at hw
      exact (touched_ensureDirs hdirs).trans (touched_write hw)
  | delete path =>
    refine ⟨rfl, fileStep_index ⟨s.now, s.vfs, branch'⟩ h ⟨rfl, rfl, hhead⟩ ?_⟩
    exact fun w hw => touched_remove s.now hw
  | commit paths info =>
    simp only [sessionStep, commit_eq_bind]
    cases hrels : requestPaths paths with
    | error e => exact ⟨rfl, h, rfl, rfl, hhead⟩
    | ok rels =>
      have hscoped : forall matcher ps,
          loadIgnoreMatcher parse s.vfs = .ok matcher ->
            rels = some ps -> ¬ CarriesStale matcher s ps := by
        intro matcher ps hmatcher hps
        subst hps
        cases paths with
        | none => cases hrels
        | some raw =>
          apply hclean matcher ps hmatcher
          rw [requestPaths] at hrels
          cases hraw : raw.mapM validateRelativePath with
          | error e =>
            rw [hraw] at hrels
            cases hrels
          | ok ps' =>
            rw [hraw] at hrels
            cases hrels
            rfl
      have hresult := commitImpl_index parse s.now rels info hhead
        (honest_usedIndex h true)
      simp only [Except.bind]
      cases hrun : commitImpl parse true s.now s.vfs rels info s.branch with
      | error e =>
        cases hrun' : commitImpl parse false s.now s.vfs rels info branch' with
        | error e' =>
          rw [hrun, hrun'] at hresult
          cases hresult
          exact ⟨rfl, h, rfl, rfl, hhead⟩
        | ok result' =>
          rw [hrun, hrun'] at hresult
          cases hresult
      | ok result =>
        cases hrun' : commitImpl parse false s.now s.vfs rels info branch' with
        | error e' =>
          rw [hrun, hrun'] at hresult
          cases hresult
        | ok result' =>
          rcases result with ⟨response, branch₁⟩
          rcases result' with ⟨response', branch₁'⟩
          rw [hrun, hrun'] at hresult
          simp only [Except.map, Except.ok.injEq, Prod.mk.injEq] at hresult
          rcases hresult with ⟨rfl, hhead'⟩
          exact ⟨rfl, h.commit hscoped hrun, rfl, rfl, hhead'.symm⟩

private theorem outcomes_eq_of_inv
    (events : List Event) {s s' : Session} (h : SessionInv s)
    (hsame : SameSession s s') (hclean : CleanRun parse s events) :
    outcomes parse true s events = outcomes parse false s' events := by
  induction events generalizing s s' with
  | nil => rfl
  | cons event rest ih =>
    rcases sessionStep_index h hsame hclean.1 with
      ⟨houtcome, hinv, hsame'⟩
    simp only [outcomes]
    rw [houtcome, ih hinv hsame' hclean.2]

/--
As long as no partial commit carries a stale entry over, every commit of a
run has the outcome it has without an index store.
-/
theorem outcomes_index_store {parse : IgnoreParser} {s : Session}
    (hhead : (headTree s.branch.head).WellFormed)
    (hindex : s.branch.index = none) (events : List Event)
    (hclean : CleanRun parse s events) :
    outcomes parse true s events = outcomes parse false s events := by
  refine outcomes_eq_of_inv events ⟨hhead, ?_, ?_⟩ ⟨rfl, rfl, rfl⟩ hclean
  · intro index hsome
    rw [hindex] at hsome
    cases hsome
  · intro index time hsome
    rw [hindex] at hsome
    cases hsome

/-!
# A rewrite within one tick
-/

private def racyName : Name := nameF

private def otherName : Name := Name.ofString "g"

/-- An empty working tree and an empty branch at time 1. -/
def freshSession : Session where
  now := 1
  vfs := empty
  branch := { head := none, index := none }

/--
The file `f` is rewritten in the tick of its commit, and a later partial
commit of `g` stamps its entry with a newer time.
-/
def racyRun : List Event :=
  [.write [racyName] [1],
    .commit none sampleInfo,
    .write [racyName] [2],
    .tick 1,
    .write [otherName] [3],
    .commit (some ["g".toList]) sampleInfo,
    .tick 1,
    .commit none sampleInfo]

theorem racyRun_outcomes_differ :
    (headTree freshSession.branch.head).WellFormed ∧
      freshSession.branch.index = none ∧
      outcomes noIgnoreFile true freshSession racyRun ≠
        outcomes noIgnoreFile false freshSession racyRun := by
  refine ⟨trivial, rfl, ?_⟩
  intro h
  have hlast := congrArg (fun os => (os.map Except.toOption).getLast?) h
  revert hlast
  decide

/-- The rewrite of `f` is a tick after its commit. -/
def calmRun : List Event :=
  [.write [racyName] [1],
    .tick 1,
    .commit none sampleInfo,
    .write [racyName] [2],
    .tick 1,
    .write [otherName] [3],
    .commit (some ["g".toList]) sampleInfo,
    .tick 1,
    .commit none sampleInfo]

private def trustsAll (branch : Branch) : Bool :=
  (loadIndex branch).all fun index => index.entries.bindings.all fun b =>
    index.savedAtNs.any fun saved => decide (b.2.mtimeNs < saved)

private theorem not_carriesStale_of_trustsAll {matcher : IgnoreMatcher}
    {ps : List Path} (h : trustsAll s.branch = true) :
    ¬ CarriesStale matcher s ps := by
  rintro ⟨index, q, entry, hload, ⟨_, _, _, hindex, hfind, _⟩, htrusted, _⟩
  cases hindex
  rw [trustsAll, hload, Option.all_some] at h
  have hall := List.all_eq_true.mp h (q, entry) (Assoc.mem_bindings.mpr hfind)
  cases hsaved : index.savedAtNs with
  | none =>
    rw [hsaved] at hall
    cases hall
  | some saved =>
    rw [hsaved] at hall
    exact htrusted ⟨saved, hsaved, of_decide_eq_true hall⟩

theorem calmRun_outcomes :
    outcomes noIgnoreFile true freshSession calmRun =
      outcomes noIgnoreFile false freshSession calmRun := by
  have hscoped : trustsAll
      ((calmRun.take 6).foldl
        (fun s event => (sessionStep noIgnoreFile true s event).1)
        freshSession).branch = true := by
    decide
  have hclean : CleanRun noIgnoreFile freshSession calmRun :=
    ⟨trivial, trivial, trivial, trivial, trivial, trivial,
      fun _ _ _ _ => not_carriesStale_of_trustsAll hscoped, trivial,
      trivial, trivial⟩
  exact outcomes_index_store (s := freshSession) trivial rfl calmRun hclean

end Git
end OpenViking
