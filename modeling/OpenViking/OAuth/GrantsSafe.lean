import OpenViking.OAuth.GrantsKept

/-!
# Grants are used once and a replay revokes

The three parts of the invariant are kept by every guarded step.
-/

namespace OpenViking
namespace OAuth

open Interleaving World Request StoreStep Rows

/-- All rows were created before now, and what a replay has killed stays dead. -/
structure ReplaySound (world : World) : Prop where
  codes : forall row, row ∈ world.store.codes -> row.createdAt < world.serial
  refresh : forall row, row ∈ world.store.refresh -> row.createdAt < world.serial
  access : forall row, row ∈ world.store.access -> row.createdAt < world.serial
  dead : forall (i : Nat) (identity : Identity) (finishedAt : Nat),
    world.requests[i]? = some (.replayed identity finishedAt) ->
    finishedAt ≤ world.serial ∧ Dead world identity finishedAt

structure Sound (world : World) : Prop where
  pending : PendingSound world.requests world.store.pending
  tokens : TokensSound world.requests world.store world.now
  replay : ReplaySound world

theorem Sound.start (now : Nat) : Sound (start now) where
  pending := by
    constructor
    · intro row hrow
      cases hrow
    · intro i r p h
      cases h
    · intro i r p h
      cases h
    · intro i j r r' p h
      cases h
    · intro i j r p h
      cases h
  tokens := by
    constructor
    · intro row hrow
      cases hrow
    · intro row hrow
      cases hrow
    · intro i r code h
      cases h
    · intro i r token h
      cases h
    · intro i j r r' origin h
      cases h
  replay := by
    constructor
    · intro row hrow
      cases hrow
    · intro row hrow
      cases hrow
    · intro row hrow
      cases hrow
    · intro i identity finishedAt h
      cases h

theorem Sound.grantsSafe {world : World} (h : Sound world) : GrantsSafe world where
  mintedOnce := by
    intro i j r r' p hi hj hr hr'
    exact h.pending.once i j r r' p hi hj (sawVerified_of_minted hr)
      (sawVerified_of_minted hr')
  deniedNone := by
    intro i j r p hi hj hr
    exact h.pending.unseen i j r p hi hj (sawVerified_of_minted hr)
  tookOnce := h.tokens.once
  replayRevokes := by
    intro i identity finishedAt hi
    exact (h.replay.dead i identity finishedAt hi).2

/-!
# The replay part
-/

section Replay

variable {world : World} {store' : OAuthStore} {requests' : List Request} {serial' : Nat}

/-- Dead rows stay dead through a call, and new ones are younger. -/
theorem Dead.kept {identity : Identity} {finishedAt : Nat}
    (h : Dead world identity finishedAt) (hle : finishedAt ≤ world.serial)
    (hstore : StoreStep world.now (fun row => row.createdAt = world.serial)
      (fun row => row.createdAt = world.serial)
      (fun row => row.createdAt = world.serial) world.store store') :
    Dead { world with store := store', serial := serial', requests := requests' }
      identity finishedAt where
  codes := by
    intro row hrow hidentity hlt
    rcases hstore.codes row hrow with ⟨old, hold, hkeeps⟩ | hnew
    · apply hkeeps.usable
      apply h.codes old hold
      · rw [← hkeeps.grant]
        exact hidentity
      · rw [← hkeeps.createdAt]
        exact hlt
    · omega
  refresh := by
    intro row hrow hidentity hlt
    rcases hstore.refresh row hrow with ⟨old, hold, hkeeps⟩ | hnew
    · apply hkeeps.active
      apply h.refresh old hold
      · rw [← hkeeps.grant]
        exact hidentity
      · rw [← hkeeps.createdAt]
        exact hlt
    · omega
  access := by
    intro row hrow hidentity hlt
    rcases hstore.access row hrow with ⟨old, hold, hkeeps⟩ | hnew
    · apply hkeeps.valid
      apply h.access old hold
      · rw [← hkeeps.grant]
        exact hidentity
      · rw [← hkeeps.createdAt]
        exact hlt
    · omega

/-- A replay that finishes with the call must leave the user with nothing. -/
theorem ReplaySound.kept (h : ReplaySound world)
    (hstore : StoreStep world.now (fun row => row.createdAt = world.serial)
      (fun row => row.createdAt = world.serial)
      (fun row => row.createdAt = world.serial) world.store store')
    (hrequests : forall (i : Nat) (identity : Identity) (finishedAt : Nat),
      requests'[i]? = some (.replayed identity finishedAt) ->
      world.requests[i]? = some (.replayed identity finishedAt) ∨
        (finishedAt = world.serial ∧
          Dead { world with
                  store := store'
                  serial := world.serial + 1
                  requests := requests' } identity finishedAt)) :
    ReplaySound
      { world with
        store := store'
        serial := world.serial + 1
        requests := requests' } where
  codes := by
    intro row hrow
    show row.createdAt < world.serial + 1
    rcases hstore.codes row hrow with ⟨old, hold, hkeeps⟩ | hnew
    · have hlt := h.codes old hold
      rw [hkeeps.createdAt]
      omega
    · omega
  refresh := by
    intro row hrow
    show row.createdAt < world.serial + 1
    rcases hstore.refresh row hrow with ⟨old, hold, hkeeps⟩ | hnew
    · have hlt := h.refresh old hold
      rw [hkeeps.createdAt]
      omega
    · omega
  access := by
    intro row hrow
    show row.createdAt < world.serial + 1
    rcases hstore.access row hrow with ⟨old, hold, hkeeps⟩ | hnew
    · have hlt := h.access old hold
      rw [hkeeps.createdAt]
      omega
    · omega
  dead := by
    intro i identity finishedAt hget
    show finishedAt ≤ world.serial + 1 ∧ _
    rcases hrequests i identity finishedAt hget with hold | ⟨heq, hdead⟩
    · rcases h.dead i identity finishedAt hold with ⟨hle, hdead⟩
      exact ⟨by omega, hdead.kept hle hstore⟩
    · exact ⟨by omega, hdead⟩

end Replay

/-!
# One call of a request
-/

/-- What a call of a request must be for the invariant to be kept. -/
structure Advances (world : World) (index : Nat) (r next : Request)
    (store' : OAuthStore) : Prop where
  notAuthorized : r ≠ .authorized
  notIssued : forall origin, r ≠ .issued origin
  rows : forall row, row ∈ store'.pending ->
    (exists old, old ∈ world.store.pending ∧ row.pendingId = old.pendingId) ∨
      (row.pendingId = index ∧ next = .authorized)
  found : forall p, next.found = some p ->
    r.found = some p ∨ exists row, row ∈ world.store.pending ∧ row.pendingId = p
  removed : forall p, next.removed = some p ->
    forall row, row ∈ store'.pending -> row.pendingId ≠ p
  saw : forall p, next.sawVerified = some p -> r.sawVerified = some p ∨
    ((forall other, other ∈ world.requests -> other.sawVerified ≠ some p) ∧
      exists row, row ∈ world.store.pending ∧ row.pendingId = p)
  denied : forall p, next = .denied p ->
    forall other, other ∈ world.requests -> other.sawVerified ≠ some p
  minted : forall p, r.minted = some p -> next.minted = some p
  store : StoreStep world.now
    (fun row => (row.code = index ∧ r.minted = none ∧ exists p, next.minted = some p) ∧
      row.createdAt = world.serial)
    (fun row => (row.token = index ∧ exists origin, next = .issued origin) ∧
      row.createdAt = world.serial)
    (fun row => row.createdAt = world.serial) world.store store'
  took : forall origin, next.took = some origin ->
    r.took = some origin ∨ Takes world.now world.store store' origin
  replayed : forall identity finishedAt, next = .replayed identity finishedAt ->
    finishedAt = world.serial ∧
      Dead { world with store := store' } identity finishedAt

theorem StoreStep.weaken {now : Nat} {c c' : CodeRow -> Prop}
    {f f' : RefreshRow -> Prop} {a a' : AccessRow -> Prop} {store store' : OAuthStore}
    (h : StoreStep now c f a store store') (hc : forall row, c row -> c' row)
    (hf : forall row, f row -> f' row) (ha : forall row, a row -> a' row) :
    StoreStep now c' f' a' store store' where
  codes := fun row hrow => (h.codes row hrow).imp_right (hc row)
  refresh := fun row hrow => (h.refresh row hrow).imp_right (hf row)
  access := fun row hrow => (h.access row hrow).imp_right (ha row)

theorem Sound.advance {world : World} (h : Sound world) {index : Nat} {r next : Request}
    {store' : OAuthStore} (hget : world.requests[index]? = some r)
    (hadv : Advances world index r next store') :
    Sound
      { world with
        store := store'
        serial := world.serial + 1
        requests := world.requests.set index next } where
  pending := h.pending.advance hget hadv.notAuthorized hadv.rows hadv.found hadv.removed
    hadv.saw hadv.denied
  tokens := h.tokens.advance hget hadv.minted hadv.notIssued
    (hadv.store.weaken (fun _ hrow => hrow.1) (fun _ hrow => hrow.1) (fun _ hrow => hrow))
    hadv.took
  replay := by
    apply h.replay.kept
    · exact hadv.store.weaken (fun _ hrow => hrow.2) (fun _ hrow => hrow.2)
        (fun _ hrow => hrow)
    · intro i identity finishedAt hi
      rcases getElem?_set_cases hi with ⟨_, heq⟩ | ⟨_, hold⟩
      · rcases hadv.replayed identity finishedAt heq.symm with ⟨hat, hdead⟩
        exact .inr ⟨hat, hdead.codes, hdead.refresh, hdead.access⟩
      · exact .inl hold

section Steps

variable {world : World} {index : Nat} {r next : Request} {store' : OAuthStore}

/-- A request that may call again and has minted no code. -/
def Request.calls : Request -> Bool
  | .authorized | .issued _ => false
  | .tearingDown _ | .approved _ => false
  | _ => true

/-- A request that has to do with no pending authorization. -/
def Request.away : Request -> Bool
  | .verifying _ _ | .denying _ | .denied _ => false
  | .minting _ _ | .tearingDown _ | .approved _ => false
  | _ => true

/-- A request that holds nothing and has revoked nothing. -/
def Request.idle (r : Request) : Bool :=
  match r with
  | .issuingAccess _ _ | .issuingRefresh _ _ | .issued _ => false
  | .replayed _ _ => false
  | r => r.away

theorem Request.calls_spec (h : r.calls = true) : r ≠ .authorized ∧
    (forall origin, r ≠ .issued origin) ∧ r.minted = none := by
  cases r with
  | authorized => cases h
  | issued origin => cases h
  | tearingDown pendingId => cases h
  | approved pendingId => cases h
  | _ => exact ⟨nofun, nofun, rfl⟩

theorem Request.away_spec (h : r.away = true) : r.found = none ∧ r.removed = none := by
  cases r with
  | verifying pendingId verification => cases h
  | denying pendingId => cases h
  | denied pendingId => cases h
  | minting row verification => cases h
  | tearingDown pendingId => cases h
  | approved pendingId => cases h
  | _ => exact ⟨rfl, rfl⟩

theorem Request.idle_spec (h : r.idle = true) : r.away = true ∧ r.took = none ∧
    forall identity finishedAt, r ≠ .replayed identity finishedAt := by
  cases r with
  | issuingAccess origin grant => cases h
  | issuingRefresh origin grant => cases h
  | issued origin => cases h
  | replayed identity finishedAt => cases h
  | _ => exact ⟨h, rfl, nofun⟩

section

variable (hr : r.calls = true)
    (hrows : forall row, row ∈ store'.pending -> (exists old, old ∈ world.store.pending ∧ row.pendingId = old.pendingId) ∨ (row.pendingId = index ∧ next = .authorized))

include hr hrows

theorem Advances.away (haway : next.away = true) (hstore : StoreStep world.now
      (fun row => (row.code = index ∧ r.minted = none ∧
        exists p, next.minted = some p) ∧ row.createdAt = world.serial)
      (fun row => (row.token = index ∧ exists origin, next = .issued origin) ∧
        row.createdAt = world.serial)
      (fun row => row.createdAt = world.serial) world.store store')
    (htook : forall origin, next.took = some origin ->
      r.took = some origin ∨ Takes world.now world.store store' origin)
    (hreplayed : forall identity finishedAt, next = .replayed identity finishedAt ->
      finishedAt = world.serial ∧
        Dead { world with store := store' } identity finishedAt) :
    Advances world index r next store' where
  notAuthorized := (calls_spec hr).1
  notIssued := (calls_spec hr).2.1
  rows := hrows
  found := by
    intro p hp
    cases (away_spec haway).1.symm.trans hp
  removed := by
    intro p hp
    cases (away_spec haway).2.symm.trans hp
  saw := by
    intro p hp
    cases (away_spec haway).1.symm.trans (found_of_sawVerified hp)
  denied := by
    intro p hp
    rw [hp] at haway
    cases haway
  minted := by
    intro p hp
    cases (calls_spec hr).2.2.symm.trans hp
  store := hstore
  took := htook
  replayed := hreplayed

theorem Advances.settles (hidle : next.idle = true) (hstore : StoreStep world.now
      (fun row => (row.code = index ∧ r.minted = none ∧
        exists p, next.minted = some p) ∧ row.createdAt = world.serial)
      (fun row => (row.token = index ∧ exists origin, next = .issued origin) ∧
        row.createdAt = world.serial)
      (fun row => row.createdAt = world.serial) world.store store') :
    Advances world index r next store' := by
  rcases idle_spec hidle with ⟨haway, htook, hreplayed⟩
  apply Advances.away hr hrows haway hstore
  · intro origin ho
    cases htook.symm.trans ho
  · intro identity finishedAt heq
    exact absurd heq (hreplayed identity finishedAt)

end

theorem Advances.issues {origin : Origin} {grant : Grant} (hr : r.calls = true)
    (hrows : forall row, row ∈ store'.pending ->
      (exists old, old ∈ world.store.pending ∧ row.pendingId = old.pendingId) ∨
        (row.pendingId = index ∧
          issuingAccess origin grant = authorized))
    (hstore : StoreStep world.now (fun _ => False) (fun _ => False) (fun _ => False)
      world.store store')
    (htakes : Takes world.now world.store store' origin) :
    Advances world index r (issuingAccess origin grant) store' := by
  apply Advances.away hr hrows rfl
  · exact hstore.weaken nofun nofun nofun
  · intro origin' ho
    cases ho
    exact .inr htakes
  · exact nofun

theorem Advances.reads (hr : r.calls = true) (hidle : next.idle = true) :
    Advances world index r next world.store :=
  Advances.settles hr (fun row hrow => .inl ⟨row, hrow, rfl⟩) hidle
    (of_pending rfl rfl rfl)

variable {row : PendingRow}

theorem Advances.finds (hr : r.calls = true)
    (hrow : row ∈ world.store.pending) (hfound : next.found = some row.pendingId)
    (hremoved : next.removed = none) (htook : next.took = none)
    (hsaw : next.sawVerified = none ∨
      forall other, other ∈ world.requests -> other.sawVerified ≠ some row.pendingId)
    (hreplayed : forall identity finishedAt,
      next ≠ .replayed identity finishedAt) :
    Advances world index r next world.store where
  notAuthorized := (calls_spec hr).1
  notIssued := (calls_spec hr).2.1
  rows := fun old hold => .inl ⟨old, hold, rfl⟩
  found := by
    intro p hp
    cases hfound.symm.trans hp
    exact .inr ⟨row, hrow, rfl⟩
  removed := by
    intro p hp
    cases hremoved.symm.trans hp
  saw := by
    intro p hp
    rcases hsaw with hnone | hother
    · cases hnone.symm.trans hp
    · cases hfound.symm.trans (found_of_sawVerified hp)
      exact .inr ⟨hother, row, hrow, rfl⟩
  denied := by
    intro p hp
    rw [hp] at hremoved
    cases hremoved
  minted := by
    intro p hp
    cases (calls_spec hr).2.2.symm.trans hp
  store := of_pending rfl rfl rfl
  took := by
    intro origin ho
    cases htook.symm.trans ho
  replayed := fun identity finishedAt heq => absurd heq (hreplayed identity finishedAt)

theorem loadForVerify_mem {lookup : Lookup}
    (h : loadForVerify world.now world.store lookup = some row) :
    row ∈ world.store.pending := by
  cases lookup with
  | pendingId pendingId =>
    unfold loadForVerify at h
    dsimp only at h
    split at h
    case h_1 => cases h
    case h_2 found hload =>
      split at h
      case isTrue => cases h
      case isFalse =>
        cases h
        exact List.mem_of_find?_eq_some hload
  | displayCode displayCode =>
    unfold loadForVerify OAuthStore.findPendingByDisplayCode at h
    dsimp only at h
    split at h
    · cases h
    · exact List.mem_of_find?_eq_some h

theorem Advances.verify {lookup : Lookup} {approve : Bool}
    {verifier : Option Verification}
    (h : loadForVerify world.now world.store lookup = some row) :
    Advances world index (.verify lookup approve verifier)
      (verifyLoaded row approve verifier) world.store := by
  have hrefused : Advances world index (.verify lookup approve verifier)
      .refused world.store := Advances.reads rfl rfl
  have hfinds : forall next', Request.found next' = some row.pendingId ->
      next'.removed = none -> next'.took = none -> next'.sawVerified = none ->
      (forall identity finishedAt, next' ≠ .replayed identity finishedAt) ->
      Advances world index (.verify lookup approve verifier) next'
        world.store := by
    intro next' hfound hremoved htook hsaw hreplayed
    exact Advances.finds rfl (loadForVerify_mem h) hfound hremoved htook
      (.inl hsaw) hreplayed
  unfold verifyLoaded
  cases approve with
  | false =>
    rw [if_neg Bool.false_ne_true]
    exact hfinds _ rfl rfl rfl rfl fun _ _ heq => (by cases heq)
  | true =>
    rw [if_pos rfl]
    cases verifier with
    | none => exact hrefused
    | some verification =>
      dsimp only
      split
      · exact hrefused
      · exact hfinds _ rfl rfl rfl rfl fun _ _ heq => (by cases heq)

variable {pendingId : Nat}

theorem Advances.poll (hguard : forall row,
      world.store.loadPendingAuthorization world.now pendingId = some row ->
      row.verified.isSome = true ->
      forall other, other ∈ world.requests -> other.sawVerified ≠ some pendingId) :
    Advances world index (.poll pendingId)
      (pollLoaded (world.store.loadPendingAuthorization world.now pendingId))
      world.store := by
  have hrefused : Advances world index (.poll pendingId) .refused
      world.store := Advances.reads rfl rfl
  unfold pollLoaded
  cases hload : world.store.loadPendingAuthorization world.now pendingId with
  | none => exact hrefused
  | some row =>
    dsimp only
    cases hverified : row.verified with
    | none => exact hrefused
    | some verification =>
      dsimp only
      have hid : row.pendingId = pendingId := by
        have hsel := List.find?_some hload
        rw [Bool.and_eq_true, decide_eq_true_eq] at hsel
        exact hsel.1
      apply Advances.finds rfl (List.mem_of_find?_eq_some hload)
      · rfl
      · rfl
      · rfl
      · refine .inr ?_
        rw [hid]
        apply hguard row hload
        rw [hverified]
        rfl
      · nofun

theorem deletePendingAuthorization_gone {store : OAuthStore}
    (h : row ∈ (store.deletePendingAuthorization pendingId).pending) :
    row ∈ store.pending ∧ row.pendingId ≠ pendingId := by
  rcases mem_deleteWhere.mp h with ⟨hmem, hsel⟩
  rw [decide_eq_false_iff_not] at hsel
  exact ⟨hmem, hsel⟩

theorem Advances.deny (hguard : forall other, other ∈ world.requests ->
      other.sawVerified ≠ some pendingId) :
    Advances world index (.denying pendingId) (.denied pendingId)
      (world.store.deletePendingAuthorization pendingId) where
  notAuthorized := nofun
  notIssued := nofun
  rows := fun row hrow => .inl ⟨row, (mem_deleteWhere.mp hrow).1, rfl⟩
  found := fun p hp => .inl hp
  removed := by
    intro p hp row hrow
    cases hp
    exact (deletePendingAuthorization_gone hrow).2
  saw := nofun
  denied := by
    intro p hp
    cases hp
    exact hguard
  minted := nofun
  store := of_pending rfl rfl rfl
  took := nofun
  replayed := nofun

theorem Advances.mint (lifetimes : Lifetimes) (row : PendingRow)
    (verification : Verification) :
    Advances world index (.minting row verification)
      (.tearingDown row.pendingId)
      (world.store.insertAuthCode
        (mintedCode lifetimes index world.now world.serial row verification)) where
  notAuthorized := nofun
  notIssued := nofun
  rows := fun old hold => .inl ⟨old, hold, rfl⟩
  found := fun _ hp => .inl hp
  removed := nofun
  saw := fun _ hp => .inl hp
  denied := nofun
  minted := nofun
  store := insertAuthCode ⟨⟨rfl, rfl, row.pendingId, rfl⟩, rfl⟩
  took := nofun
  replayed := nofun

theorem Advances.tearDown (pendingId : Nat) :
    Advances world index (.tearingDown pendingId) (.approved pendingId)
      (world.store.deletePendingAuthorization pendingId) where
  notAuthorized := nofun
  notIssued := nofun
  rows := fun row hrow => .inl ⟨row, (mem_deleteWhere.mp hrow).1, rfl⟩
  found := fun p hp => .inl hp
  removed := by
    intro p hp row hrow
    cases hp
    exact (deletePendingAuthorization_gone hrow).2
  saw := fun p hp => .inl hp
  denied := nofun
  minted := fun p hp => hp
  store := of_pending rfl rfl rfl
  took := nofun
  replayed := nofun

/-!
# Tokens
-/

theorem spent_of_consumeWhere {row : Type} {l u : row -> Bool}
    {change : row -> row} {s : List row} {taken : row}
    (hchange : forall r, u (change r) = false)
    (h : (consumeWhere (fun r => l r && u r) change s).2 = some taken) :
    (taken ∈ s ∧ l taken = true ∧ u taken = true) ∧
      forall r, r ∈ (consumeWhere (fun r => l r && u r) change s).1 ->
        l r = true -> u r = false := by
  rcases consumeWhere_some h with ⟨hmem, hsel, heq⟩
  rw [Bool.and_eq_true] at hsel
  refine ⟨⟨hmem, hsel⟩, ?_⟩
  intro r hr hlike
  rw [heq] at hr
  rcases mem_updateWhere.mp hr with ⟨old, _, hold⟩
  rw [hold] at hlike ⊢
  split
  · exact hchange old
  · rename_i hnot
    rw [if_neg hnot] at hlike
    rw [Bool.and_eq_true, not_and] at hnot
    exact Bool.eq_false_iff.mpr (hnot hlike)

theorem consumeAuthCode_takes {code : Nat} {row : CodeRow}
    (h : (world.store.consumeAuthCode world.now code).2 = some row) :
    Takes world.now world.store (world.store.consumeAuthCode world.now code).1
      (.code code) := by
  have hrows : (consumeWhere
      (fun row => decide (row.code = code) && CodeRow.usable world.now row)
      (fun row => { row with used := true }) world.store.codes).2 = some row := h
  rcases spent_of_consumeWhere (fun _ => rfl) hrows with ⟨⟨hmem, hcode, husable⟩, hspent⟩
  exact ⟨⟨row, hmem, of_decide_eq_true hcode, husable⟩,
    fun row' hrow' hcode' => hspent row' hrow' (decide_eq_true hcode')⟩

theorem consumeRefresh_takes {token : Nat} {replacedBy : Option Nat} {row : RefreshRow}
    (h : (world.store.consumeRefresh world.now token replacedBy).2 = some row) :
    Takes world.now world.store
      (world.store.consumeRefresh world.now token replacedBy).1
      (.refresh token) := by
  have hrows : (consumeWhere
      (fun row => decide (row.token = token) && RefreshRow.active world.now row)
      (fun row => { row with consumed := true, replacedBy := replacedBy })
      world.store.refresh).2 = some row := h
  rcases spent_of_consumeWhere (fun _ => rfl) hrows with ⟨⟨hmem, htoken, hactive⟩, hspent⟩
  exact ⟨⟨row, hmem, of_decide_eq_true htoken, hactive⟩,
    fun row' hrow' htoken' => hspent row' hrow' (decide_eq_true htoken')⟩

theorem dead_of_revoked {row : Type} {m d u : row -> Bool}
    {change : row -> row} {rows : List row} {r : row}
    (hchange : forall r, u (change r) = false)
    (hdead : forall r, d r = true -> u r = false)
    (h : r ∈ updateWhere (fun r => m r && !d r) change rows)
    (hmine : m r = true) : u r = false := by
  rcases mem_updateWhere.mp h with ⟨old, _, heq⟩
  rw [heq] at hmine ⊢
  split
  · exact hchange old
  · rename_i hnot
    rw [if_neg hnot] at hmine
    rw [Bool.and_eq_true, Bool.not_eq_true', not_and, Bool.not_eq_false] at hnot
    exact hdead old (hnot hmine)

/-- After a revocation nothing of the user is accepted. -/
theorem revokeUserTokens_dead (identity : Identity) (serial : Nat) :
    Dead { world with store := world.store.revokeUserTokens identity } identity
      serial where
  codes row hrow hidentity _ := by
    apply dead_of_revoked (d := CodeRow.used) _ _ hrow (decide_eq_true hidentity)
    · exact fun _ => rfl
    · intro r hr
      rw [CodeRow.usable, hr]
      rfl
  refresh row hrow hidentity _ := by
    apply dead_of_revoked (d := RefreshRow.consumed) _ _ hrow
      (decide_eq_true hidentity)
    · exact fun _ => rfl
    · intro r hr
      rw [RefreshRow.active, hr]
      rfl
  access row hrow hidentity _ := by
    apply dead_of_revoked (d := AccessRow.revoked) _ _ hrow
      (decide_eq_true hidentity)
    · exact fun _ => rfl
    · intro r hr
      rw [AccessRow.valid, hr]
      rfl
theorem Advances.refresh {clientId : String} {token : Nat} {scopes : List String}
    {accepted : Bool}
    (hguard : forall row, knownConsumed world.now world.store token = some row ->
      Dead world row.grant.identity world.serial) :
    Advances world index (.refresh clientId token scopes accepted)
      (refreshLoaded world.now world.serial world.store clientId token scopes accepted)
      world.store := by
  unfold refreshLoaded
  cases world.store.peekRefresh world.now token with
  | none =>
    dsimp only
    cases hknown : knownConsumed world.now world.store token with
    | none => exact Advances.reads rfl rfl
    | some row =>
      refine Advances.away rfl ?_ rfl (of_pending rfl rfl rfl) ?_ ?_
      · exact fun row hrow => .inl ⟨row, hrow, rfl⟩
      · nofun
      · intro identity finishedAt heq
        cases heq
        exact ⟨rfl, hguard row hknown⟩
  | some row =>
    dsimp only
    split
    · exact Advances.reads rfl rfl
    · exact Advances.reads rfl rfl

/-- Every guarded call of a request keeps the invariant. -/
theorem advances_of_advance (lifetimes : Lifetimes)
    (hguard : GuardedRequest world r)
    (hadvance : advance lifetimes index world.now world.serial world.store r =
      some (store', next)) : Advances world index r next store' := by
  have hkept : forall row, row ∈ world.store.pending ->
      (exists old, old ∈ world.store.pending ∧ row.pendingId = old.pendingId) ∨
        (row.pendingId = index ∧ next = authorized) :=
    fun row hrow => .inl ⟨row, hrow, rfl⟩
  cases r with
  | authorize params =>
    cases hadvance
    refine Advances.settles rfl ?_ rfl (of_pending rfl rfl rfl)
    intro row hrow
    rcases List.mem_append.mp hrow with hold | hnew
    · exact hkept row hold
    · rw [List.mem_singleton.mp hnew]
      exact .inr ⟨rfl, rfl⟩
  | verify lookup approve verifier =>
    unfold advance at hadvance
    dsimp only at hadvance
    cases hload : loadForVerify world.now world.store lookup with
    | none =>
      rw [hload] at hadvance
      cases hadvance
      exact Advances.reads rfl rfl
    | some row =>
      rw [hload] at hadvance
      cases hadvance
      exact Advances.verify hload
  | verifying pendingId verification =>
    cases hadvance
    refine Advances.settles rfl ?_ ?_ (of_pending rfl rfl rfl)
    · apply forall_consumeWhere
      · exact hkept
      · exact fun row hrow _ => .inl ⟨row, hrow, rfl⟩
    · split
      · rfl
      · rfl
  | denying pendingId =>
    cases hadvance
    exact Advances.deny (hguard.earlyDenial pendingId rfl)
  | poll pendingId =>
    cases hadvance
    exact Advances.poll (hguard.firstPoll pendingId rfl)
  | minting row verification =>
    cases hadvance
    exact Advances.mint lifetimes row verification
  | tearingDown pendingId =>
    cases hadvance
    exact Advances.tearDown pendingId
  | exchange clientId code accepted =>
    cases hadvance
    apply Advances.reads rfl
    unfold exchangeLoaded
    cases world.store.peekAuthCode world.now code with
    | none => rfl
    | some row =>
      dsimp only
      split
      · rfl
      · rfl
  | consumingCode code grant =>
    unfold advance at hadvance
    dsimp only at hadvance
    cases hfound : (world.store.consumeAuthCode world.now code).2 with
    | none =>
      rw [← Prod.eta (world.store.consumeAuthCode world.now code), hfound]
        at hadvance
      cases hadvance
      exact Advances.settles rfl hkept rfl (consumeAuthCode code)
    | some row =>
      rw [← Prod.eta (world.store.consumeAuthCode world.now code), hfound]
        at hadvance
      cases hadvance
      exact Advances.issues rfl hkept (consumeAuthCode code)
        (consumeAuthCode_takes hfound)
  | issuingAccess origin grant =>
    cases hadvance
    exact Advances.away rfl hkept rfl (insertAccess rfl)
      (fun origin' ho => .inl ho) nofun
  | issuingRefresh origin grant =>
    cases hadvance
    exact Advances.away rfl hkept rfl
      (insertRefresh ⟨⟨rfl, origin, rfl⟩, rfl⟩)
      (fun origin' ho => .inl ho) nofun
  | refresh clientId token scopes accepted =>
    cases hadvance
    exact Advances.refresh (hguard.freshToken token rfl)
  | consumingRefresh token grant =>
    unfold advance at hadvance
    dsimp only at hadvance
    cases hfound : (world.store.consumeRefresh world.now token (some index)).2 with
    | none =>
      rw [← Prod.eta (world.store.consumeRefresh world.now token (some index)),
        hfound] at hadvance
      cases hadvance
      exact Advances.settles rfl hkept rfl
        (consumeRefresh token (some index))
    | some row =>
      rw [← Prod.eta (world.store.consumeRefresh world.now token (some index)),
        hfound] at hadvance
      cases hadvance
      exact Advances.issues rfl hkept (consumeRefresh token (some index))
        (consumeRefresh_takes hfound)
  | checkingReplay token identity =>
    cases hadvance
    apply Advances.reads rfl
    split
    · rfl
    · rfl
  | revoking identity =>
    cases hadvance
    refine Advances.away rfl ?_ rfl (revokeUserTokens identity) nofun ?_
    · exact fun row hrow => .inl ⟨row, (mem_deleteWhere.mp hrow).1, rfl⟩
    · intro identity' finishedAt heq
      cases heq
      exact ⟨rfl, revokeUserTokens_dead identity world.serial⟩
  | _ => cases hadvance

/-!
# Every step
-/

theorem Sound.call (h : Sound world) (call : Call) :
    Sound
      { world with
        serial := world.serial + 1
        requests := world.requests ++ [call.request] } where
  pending :=
    h.pending.call (call_request_quiet call).1 (call_request_quiet call).2.2.1
  tokens := h.tokens.call (call_request_quiet call).2.1
  replay := by
    apply h.replay.kept (of_pending rfl rfl rfl)
    intro i identity finishedAt hget
    rcases getElem?_append_cases hget with hold | ⟨_, heq⟩
    · exact .inl hold
    · exact absurd heq.symm ((call_request_quiet call).2.2.2 identity finishedAt)

theorem Sound.gc (h : Sound world) :
    Sound
      { world with
        store := world.store.gcExpired world.now
        serial := world.serial + 1 } where
  pending := by
    constructor
    · exact fun row hrow => h.pending.known row (mem_deleteWhere.mp hrow).1
    · exact h.pending.found
    · exact fun i r p hget hp row hrow =>
        h.pending.removed i r p hget hp row (mem_deleteWhere.mp hrow).1
    · exact h.pending.once
    · exact h.pending.unseen
  tokens := by
    apply h.tokens.stored
    · exact fun row hrow => ⟨row, (mem_deleteWhere.mp hrow).1, rfl, id⟩
    · exact fun row hrow => ⟨row, (mem_deleteWhere.mp hrow).1, rfl, id⟩
  replay := h.replay.kept gcExpired fun _ _ _ hget => .inl hget

theorem Sound.tick (h : Sound world) (seconds : Nat) :
    Sound { world with now := world.now + seconds, serial := world.serial + 1 } where
  pending := h.pending
  tokens := by
    apply h.tokens.stored
    · exact fun row hrow => ⟨row, hrow, rfl, stays_late seconds⟩
    · exact fun row hrow => ⟨row, hrow, rfl, stays_late seconds⟩
  replay := by
    constructor
    · exact fun row hrow => Nat.lt_succ_of_lt (h.replay.codes row hrow)
    · exact fun row hrow => Nat.lt_succ_of_lt (h.replay.refresh row hrow)
    · exact fun row hrow => Nat.lt_succ_of_lt (h.replay.access row hrow)
    · intro i identity finishedAt hget
      rcases h.replay.dead i identity finishedAt hget with ⟨hle, hdead⟩
      refine ⟨Nat.le_succ_of_le hle, ?_, ?_, ?_⟩
      · exact fun row hrow hidentity hlt =>
          stays_late seconds (hdead.codes row hrow hidentity hlt)
      · exact fun row hrow hidentity hlt =>
          stays_late seconds (hdead.refresh row hrow hidentity hlt)
      · exact fun row hrow hidentity hlt =>
          stays_late seconds (hdead.access row hrow hidentity hlt)

theorem Sound.step {world' : World} {lifetimes : Lifetimes} {label : Label}
    (h : Sound world) (hguard : Guarded world label)
    (hstep : OAuth.step lifetimes world label = some world') : Sound world' := by
  cases label with
  | call call =>
    cases hstep
    exact h.call call
  | advance index =>
    simp only [OAuth.step] at hstep
    split at hstep
    case h_1 => cases hstep
    case h_2 request hget =>
      split at hstep
      case h_1 => cases hstep
      case h_2 after hadvance =>
        cases hstep
        exact h.advance hget (advances_of_advance lifetimes (hguard request hget)
          hadvance)
  | gc =>
    cases hstep
    exact h.gc
  | tick seconds =>
    cases hstep
    exact h.tick seconds

end Steps

/-- In every guarded run codes and tokens are granted once, denials hold, and a replay
that has finished leaves nothing of its user accepted. -/
theorem grants_safe {lifetimes : Lifetimes} {now : Nat} {labels : List Label}
    {world : World}
    (hguard : Interleaving.Meets (step lifetimes) Guarded (start now) labels)
    (hrun : run (step lifetimes) (start now) labels = some world) :
    GrantsSafe world :=
  (run_inv (step lifetimes) Sound.step (Sound.start now) hguard
    hrun).grantsSafe

/-!
# A replay that comes after the rotation
-/

def exampleLifetimes : Lifetimes :=
  { pending := 600, code := 300, access := 3600, refresh := 2592000 }

def exampleParams : AuthorizationParams :=
  { clientId := "client"
    redirectUri := "http://localhost/callback"
    redirectUriProvidedExplicitly := true
    codeChallenge := "challenge"
    scopes := ["mcp"]
    resource := none
    state := none
    displayCode := "ABC234" }

def exampleVerification : Verification :=
  { identity := { accountId := "acc", userId := "alice" }
    role := "user"
    keyFp := "fp" }

/-- Authorize, verify, poll and exchange: the exchange is request 3. -/
def firstGrant : List Label :=
  [.call (.authorize exampleParams), .advance 0,
    .call (.verify (Lookup.pendingId 0) true (some exampleVerification)),
    .advance 1, .advance 1, .call (.poll 0), .advance 2,
    .advance 2, .advance 2, .call (.exchange "client" 2 true),
    .advance 3, .advance 3, .advance 3, .advance 3]

def refreshCall : Label :=
  .call (.refresh "client" 3 [] true)

/-- The token is rotated by request 4 and presented again by request 5. -/
def lateReplay : List Label :=
  firstGrant ++
    [refreshCall, .advance 4, .advance 4, .advance 4, .advance 4,
      refreshCall, .advance 5]

/-- Both requests load the token before either consumes it. -/
def overlappingReplay : List Label :=
  firstGrant ++
    [refreshCall, refreshCall, .advance 4, .advance 5, .advance 4,
      .advance 4, .advance 4, .advance 5, .advance 5,
      .advance 5]

theorem late_replay_revokes_nothing :
    ¬ forall (lifetimes : Lifetimes) (now : Nat) (labels : List Label) (world : World),
        run (step lifetimes) (start now) labels = some world ->
          GrantsSafe world := by
  intro h
  have hview : (run (step exampleLifetimes) (start 0)
      lateReplay).map (fun world => (world.requests[5]?, world.store.access.any
        fun row => decide (row.grant.identity = exampleVerification.identity) &&
          decide (row.createdAt < 20) && row.valid world.now)) =
      some (some (.replayed exampleVerification.identity 20), true) := by
    decide +kernel
  rcases Option.map_eq_some_iff.mp hview with ⟨world, hrun, hview⟩
  simp only [Prod.mk.injEq, List.any_eq_true, Bool.and_eq_true, decide_eq_true_eq]
    at hview
  rcases hview with ⟨hreplayed, row, hrow, ⟨hidentity, hlt⟩, hvalid⟩
  have hdead := (h _ _ lateReplay world hrun).replayRevokes 5 _ 20 hreplayed
  rw [hdead.access row hrow hidentity hlt] at hvalid
  cases hvalid

theorem grants_safe_overlapping :
    exists world,
      run (step exampleLifetimes) (start 0) overlappingReplay =
        some world ∧
      world.requests[5]? = some (.replayed exampleVerification.identity 23) ∧
      GrantsSafe world := by
  have hview : (run (step exampleLifetimes) (start 0)
      overlappingReplay).map (fun world => world.requests[5]?) =
      some (some (.replayed exampleVerification.identity 23)) := by
    decide +kernel
  rcases Option.map_eq_some_iff.mp hview with ⟨world, hrun, hview⟩
  have hguard : Interleaving.Meets (step exampleLifetimes) Guarded (start 0)
      overlappingReplay := by
    decide +kernel
  exact ⟨world, hrun, hview, grants_safe hguard hrun⟩

end OAuth
end OpenViking
