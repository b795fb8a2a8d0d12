import OpenViking.Watch.WatchManager

/-!
# The watch storage

A save writes the tasks to a temporary file and rotates it with the stored file and its
backup.  Each operation of the storage can stop, by failing or with the process, before,
inside or after its effect.
-/

namespace OpenViking
namespace Watch

/-- What a file holds: complete tasks, or a part that does not parse. -/
inductive StoredFile where
  | complete (tasks : List WatchTask)
  | torn
deriving DecidableEq

structure Storage where
  main : Option StoredFile
  bak : Option StoredFile
  tmp : Option StoredFile
deriving DecidableEq

def Storage.empty : Storage :=
  { main := none, bak := none, tmp := none }

def tasks? : Option StoredFile -> Option (List WatchTask)
  | some (.complete tasks) => some tasks
  | some .torn => none
  | none => none

/-- What loading reads: the stored file, or else its backup, or else nothing. -/
def Storage.recovered (storage : Storage) : List WatchTask :=
  ((tasks? storage.main).or (tasks? storage.bak)).getD []

def Storage.recoveredFromBackup (storage : Storage) : Bool :=
  (tasks? storage.main).isNone && (tasks? storage.bak).isSome

/-!
# The rotation
-/

/-- How far an operation came before it stopped: a copy that is made but whose source is
still there has come `all` the way. -/
inductive Progress where
  | nothing
  | part
  | all
deriving DecidableEq

inductive Stop where
  | fails
  | crashes
deriving DecidableEq

/-- Where a save stops.  Failures to remove or to move the old files are passed over. -/
inductive SaveFate where
  | stopsWriting (progress : Progress) (stop : Stop)
  | stopsRemoving (progress : Progress)
  | stopsBacking (removal : Option Progress) (progress : Progress)
  | moves (removal backing : Option Progress) (last : Option (Progress × Stop))
deriving DecidableEq

inductive SaveResult where
  | saved
  | raised
  | crashed
deriving DecidableEq

def Stop.result : Stop -> SaveResult
  | .fails => .raised
  | .crashes => .crashed

/-- A file that a write or a copy has reached. -/
def written (old new : Option StoredFile) : Progress -> Option StoredFile
  | .nothing => old
  | .part => some .torn
  | .all => new

namespace Storage

def removeBackup (storage : Storage) : Option Progress -> Storage
  | some .nothing => storage
  | _ => { storage with bak := none }

/-- The stored file, if there is one, is moved to the backup. -/
def backUp (storage : Storage) (stopped : Option Progress) : Storage :=
  match storage.main, stopped with
  | none, _ => storage
  | some file, none => { storage with bak := some file, main := none }
  | some file, some progress =>
    { storage with bak := written storage.bak (some file) progress }

/-- The temporary file is moved to the stored one. -/
def bringIn (storage : Storage) : Option Progress -> Storage
  | none => { storage with main := storage.tmp, tmp := none }
  | some progress => { storage with main := written storage.main storage.tmp progress }

def rotate (storage : Storage) (tasks : List WatchTask) : SaveFate -> Storage × SaveResult
  | .stopsWriting progress stop =>
    ({ storage with tmp := written storage.tmp (some (.complete tasks)) progress },
      stop.result)
  | .stopsRemoving progress =>
    (({ storage with tmp := some (.complete tasks) }).removeBackup (some progress),
      .crashed)
  | .stopsBacking removal progress =>
    ((({ storage with tmp := some (.complete tasks) }).removeBackup removal).backUp
      (some progress), .crashed)
  | .moves removal backing last =>
    let backed := (({ storage with tmp := some (.complete tasks) }).removeBackup
      removal).backUp backing
    match last with
    | none => (backed.bringIn none, .saved)
    | some (progress, stop) => (backed.bringIn (some progress), stop.result)

end Storage

/-!
# Safe rotations
-/

/-- The save ends with an error for its caller. -/
def SaveFate.raises : SaveFate -> Bool
  | .stopsWriting _ stop => decide (stop = .fails)
  | .stopsRemoving _ => false
  | .stopsBacking _ _ => false
  | .moves _ _ none => false
  | .moves _ _ (some (_, stop)) => decide (stop = .fails)

def Complete (file : Option StoredFile) : Prop :=
  (tasks? file).isSome = true

instance decidableComplete (file : Option StoredFile) : Decidable (Complete file) :=
  inferInstanceAs (Decidable ((tasks? file).isSome = true))

/-- A save that stops has removed the backup only when the stored file was complete, has
overwritten the stored file only after backing it up, and does not fail after its last
copy. -/
def SaveFate.Safe (storage : Storage) : SaveFate -> Prop
  | .stopsWriting _ _ => True
  | .stopsRemoving progress =>
    Complete storage.main ∨ ¬ Complete storage.bak ∨ progress = .nothing
  | .stopsBacking removal progress =>
    Complete storage.main ∨ ¬ Complete storage.bak ∨
      (removal = some .nothing ∧ (storage.main = none ∨ progress = .nothing))
  | .moves _ _ none => True
  | .moves removal backing (some (progress, stop)) =>
    (progress = .all -> stop = .crashes) ∧
      (Complete storage.main -> progress = .part ->
        backing = none ∨ backing = some .all) ∧
      (¬ Complete storage.main -> Complete storage.bak -> progress ≠ .all ->
        removal = some .nothing ∧ (storage.main = none ∨ backing = some .nothing))

instance decidableSafe (storage : Storage) :
    forall fate : SaveFate, Decidable (fate.Safe storage)
  | .stopsWriting _ _ => isTrue trivial
  | .stopsRemoving progress =>
    inferInstanceAs (Decidable
      (Complete storage.main ∨ ¬ Complete storage.bak ∨ progress = .nothing))
  | .stopsBacking removal progress =>
    inferInstanceAs (Decidable
      (Complete storage.main ∨ ¬ Complete storage.bak ∨
        (removal = some .nothing ∧ (storage.main = none ∨ progress = .nothing))))
  | .moves _ _ none => isTrue trivial
  | .moves removal backing (some (progress, stop)) =>
    inferInstanceAs (Decidable
      ((progress = .all -> stop = .crashes) ∧
        (Complete storage.main -> progress = .part ->
          backing = none ∨ backing = some .all) ∧
        (¬ Complete storage.main -> Complete storage.bak -> progress ≠ .all ->
          removal = some .nothing ∧
            (storage.main = none ∨ backing = some .nothing))))

variable {storage : Storage} {tasks : List WatchTask}

theorem recovered_of_main
    (h : tasks? storage.main = some tasks) : storage.recovered = tasks := by
  rw [Storage.recovered, h]
  rfl

theorem recovered_of_bak (h : tasks? storage.main = none) :
    storage.recovered = (tasks? storage.bak).getD [] := by
  rw [Storage.recovered, h]
  rfl

namespace Storage

theorem removeBackup_main (storage : Storage) (removal : Option Progress) :
    (storage.removeBackup removal).main = storage.main := by
  unfold removeBackup
  split <;> rfl

theorem removeBackup_tmp (storage : Storage) (removal : Option Progress) :
    (storage.removeBackup removal).tmp = storage.tmp := by
  unfold removeBackup
  split <;> rfl

theorem backUp_tmp (storage : Storage) (backing : Option Progress) :
    (storage.backUp backing).tmp = storage.tmp := by
  unfold backUp
  split <;> rfl

theorem backUp_of_idle {backing : Option Progress}
    (h : storage.main = none ∨ backing = some .nothing) :
    storage.backUp backing = storage := by
  rcases storage with ⟨main, bak, tmp⟩
  cases main with
  | none => rfl
  | some file =>
    rcases h with hnone | hnothing
    · cases hnone
    · rw [hnothing]
      rfl

theorem backUp_of_complete
    (h : tasks? storage.main = some tasks) (backing : Option Progress) :
    tasks? (storage.backUp backing).main = some tasks ∨
      (tasks? (storage.backUp backing).main = none ∧
        tasks? (storage.backUp backing).bak = some tasks) := by
  unfold backUp
  cases hmain : storage.main with
  | none =>
    rw [hmain] at h
    cases h
  | some file =>
    rw [hmain] at h
    cases backing with
    | none => exact .inr ⟨rfl, h⟩
    | some progress => exact .inl h

theorem backUp_bak_of_complete
    (h : tasks? storage.main = some tasks) {backing : Option Progress}
    (hbacked : backing = none ∨ backing = some .all) :
    tasks? (storage.backUp backing).bak = some tasks := by
  unfold backUp
  cases hmain : storage.main with
  | none =>
    rw [hmain] at h
    cases h
  | some file =>
    rw [hmain] at h
    rcases hbacked with hnone | hall
    · rw [hnone]
      exact h
    · rw [hall]
      exact h

theorem backUp_main_of_not_complete
    (h : tasks? storage.main = none) (backing : Option Progress) :
    tasks? (storage.backUp backing).main = none := by
  unfold backUp
  cases hmain : storage.main with
  | none =>
    rw [hmain] at h
    dsimp only
    rw [hmain]
    rfl
  | some file =>
    cases backing with
    | none => rfl
    | some progress =>
      dsimp only
      rw [hmain] at h
      exact h

theorem backUp_bak_of_not_complete
    (h : tasks? storage.main = none) (hbak : tasks? storage.bak = none)
    (backing : Option Progress) : tasks? (storage.backUp backing).bak = none := by
  unfold backUp
  cases hmain : storage.main with
  | none => exact hbak
  | some file =>
    rw [hmain] at h
    cases backing with
    | none => exact h
    | some progress =>
      cases progress with
      | nothing => exact hbak
      | part => rfl
      | all => exact h

theorem removeBackup_bak_of_not_complete
    (hbak : tasks? storage.bak = none) (removal : Option Progress) :
    tasks? (storage.removeBackup removal).bak = none := by
  unfold removeBackup
  split
  · exact hbak
  · rfl

end Storage

variable {fate : SaveFate}

theorem Storage.recovered_saved {storage storage' : Storage}
    (h : storage.rotate tasks fate = (storage', .saved)) :
    storage'.recovered = tasks := by
  have hstop : forall stop : Stop, stop.result ≠ .saved := by
    intro stop
    cases stop <;> exact nofun
  cases fate with
  | stopsWriting progress stop => exact absurd (Prod.ext_iff.mp h).2 (hstop stop)
  | stopsRemoving progress => exact nomatch (Prod.ext_iff.mp h).2
  | stopsBacking removal progress => exact nomatch (Prod.ext_iff.mp h).2
  | moves removal backing last =>
    cases last with
    | some stopped => exact absurd (Prod.ext_iff.mp h).2 (hstop stopped.2)
    | none =>
      cases h
      apply recovered_of_main
      change tasks? (Storage.backUp _ backing).tmp = some tasks
      rw [Storage.backUp_tmp, Storage.removeBackup_tmp]
      rfl

/-!
# Stopped rotations
-/

/-- The storage with the new tasks written and the old files out of the way. -/
def Storage.backed (storage : Storage) (tasks : List WatchTask)
    (removal backing : Option Progress) : Storage :=
  (({ storage with tmp := some (.complete tasks) }).removeBackup removal).backUp backing

/-- The old files are put out of the way only where that loses nothing. -/
def Spared (storage : Storage) (removal backing : Option Progress) : Prop :=
  Complete storage.main ∨ ¬ Complete storage.bak ∨
    (removal = some .nothing ∧ (storage.main = none ∨ backing = some .nothing))

section Backed

variable {removal backing : Option Progress}

theorem Storage.backed_of_main (h : tasks? storage.main = some tasks)
    (new : List WatchTask) :
    (storage.backed new removal backing).recovered = tasks := by
  rcases backUp_of_complete (h ▸ congrArg tasks? (removeBackup_main
    { storage with tmp := some (.complete new) } removal)) backing with
    hmain | ⟨hmain, hbak⟩
  · exact recovered_of_main hmain
  · rw [backed, recovered_of_bak hmain, hbak]
    rfl

/-- With the backup alone complete nothing is moved. -/
theorem Storage.backed_of_bak (h : Spared storage removal backing)
    (hmain : ¬ Complete storage.main) (hbak : Complete storage.bak)
    (tasks : List WatchTask) :
    storage.backed tasks removal backing =
      { storage with tmp := some (.complete tasks) } := by
  rcases h with hmain' | hbak' | ⟨hremoval, hidle⟩
  · exact absurd hmain' hmain
  · exact absurd hbak hbak'
  · rw [hremoval]
    exact backUp_of_idle hidle

theorem Storage.backed_of_nothing (hmain : tasks? storage.main = none)
    (hbak : tasks? storage.bak = none) (new : List WatchTask) :
    tasks? (storage.backed new removal backing).main = none ∧
      tasks? (storage.backed new removal backing).bak = none := by
  have hmain' : tasks? (({ storage with tmp := some (.complete new) } :
      Storage).removeBackup removal).main = none := by
    rw [removeBackup_main]
    exact hmain
  refine ⟨backUp_main_of_not_complete hmain' backing,
    backUp_bak_of_not_complete hmain' ?_ backing⟩
  apply removeBackup_bak_of_not_complete
  exact hbak

theorem Storage.recovered_backed (h : Spared storage removal backing)
    (new : List WatchTask) :
    (storage.backed new removal backing).recovered = storage.recovered := by
  cases hmain : tasks? storage.main with
  | some old => rw [backed_of_main hmain, recovered_of_main hmain]
  | none =>
    cases hbak : tasks? storage.bak with
    | some old =>
      rw [backed_of_bak h (by simp [Complete, hmain]) (by simp [Complete, hbak])]
      rfl
    | none =>
      rcases backed_of_nothing hmain hbak new with ⟨hmain', hbak'⟩
      rw [recovered_of_bak hmain', hbak', recovered_of_bak hmain, hbak]

/-- The backup holds what is lost when the stored file is overwritten. -/
theorem Storage.backed_bak (h : Spared storage removal backing)
    (hbacking : Complete storage.main -> backing = none ∨ backing = some .all)
    (new : List WatchTask) :
    (tasks? (storage.backed new removal backing).bak).getD [] =
      storage.recovered := by
  cases hmain : tasks? storage.main with
  | some old =>
    rw [backed, backUp_bak_of_complete ((congrArg tasks? (removeBackup_main
      { storage with tmp := some (.complete new) } removal)).trans hmain)
      (hbacking (by simp [Complete, hmain])), recovered_of_main hmain]
    rfl
  | none =>
    rw [recovered_of_bak hmain]
    cases hbak : tasks? storage.bak with
    | some old =>
      rw [backed_of_bak h (by simp [Complete, hmain]) (by simp [Complete, hbak]),
        ← hbak]
    | none => rw [(backed_of_nothing hmain hbak new).2]

end Backed

/-- A safe save that stops loses nothing. -/
theorem Storage.recovered_stopped {result : SaveResult} {storage storage' : Storage}
    (hsafe : fate.Safe storage)
    (h : storage.rotate tasks fate = (storage', result)) (hresult : result ≠ .saved) :
    storage'.recovered = storage.recovered ∨
      (storage'.recovered = tasks ∧ result = .crashed) := by
  cases fate with
  | stopsWriting progress stop =>
    cases h
    exact .inl rfl
  | stopsRemoving progress =>
    cases h
    have hspared : Spared storage (some progress) (some .nothing) :=
      hsafe.imp_right (Or.imp_right fun hnothing =>
        ⟨congrArg some hnothing, .inr rfl⟩)
    have hkept := recovered_backed hspared tasks
    rw [backed, backUp_of_idle (.inr rfl)] at hkept
    exact .inl hkept
  | stopsBacking removal progress =>
    cases h
    have hspared : Spared storage removal (some progress) :=
      hsafe.imp_right (Or.imp_right fun hidle =>
        ⟨hidle.1, hidle.2.imp_right (congrArg some)⟩)
    exact .inl (recovered_backed hspared tasks)
  | moves removal backing last =>
    cases last with
    | none =>
      cases h
      exact absurd rfl hresult
    | some stopped =>
      rcases stopped with ⟨progress, stop⟩
      cases h
      have hspared : progress ≠ .all -> Spared storage removal backing := by
        intro hne
        by_cases hmain : Complete storage.main
        · exact .inl hmain
        · by_cases hbak : Complete storage.bak
          · exact .inr (.inr (hsafe.2.2 hmain hbak hne))
          · exact .inr (.inl hbak)
      cases progress with
      | nothing => exact .inl (recovered_backed (hspared nofun) tasks)
      | part =>
        have hbak := backed_bak (hspared nofun) (fun hmain => hsafe.2.1 hmain rfl) tasks
        exact .inl ((recovered_of_bak rfl).trans hbak)
      | all =>
        have hnew : (storage.backed tasks removal backing).tmp =
            some (.complete tasks) := by
          rw [backed, backUp_tmp, removeBackup_tmp]
        rw [hsafe.1 rfl]
        exact .inr ⟨recovered_of_main (congrArg tasks? hnew), rfl⟩

end Watch
end OpenViking
