import Laoshiren.Identity.Proofs.AccountProofs

/-!
# Deletions that are undone

A request writes back the user that it read. Where the deletion was carried out in between, the user is
DELETING again, and no job is left that would delete it. As long as no request does that, users only move
from ACTIVE over DELETING to DELETED (`deletion_oneWay`).
-/

namespace Identity

open Runtime Raise Table DurableJobRepository

variable {hash : String → String} {sessionTtl : ℤ} {view : ℕ → State} {v s s' : State} {op : Op}
  {reply : Reply} {j j' : DurableJob} {u u' : User} {userId : UUID} {h : History State Op Reply}

/-! ## The condition -/

/-- A request that read a user finds it not deleted, and a worker reads the user whose deletion it
claims. -/
def Op.InOrder (view : ℕ → State) (s : State) : Op → Prop
  | .requestDeletion userId _ _ => ∀ user, UserRepository.get userId (view 0).users = some user →
      user.status ≠ .deleted → ∀ u ∈ s.users, u.id = userId → u.status ≠ .deleted
  | .runDeletion worker lease now _ reached locked =>
    ∀ job ∈ (claimReadyJobs .accountDeletion (workerOwner worker) now (now + lease) 1 reached locked
      s.store.durableJobs).2, (UserRepository.get job.userId (view 0).users).isSome
  | _ => True

/-! ## The phases of an account -/

/-- Nobody asked to delete an ACTIVE user, and a worker is still to delete one that is DELETING. -/
structure Phased (s : State) : Prop where
  active : ∀ u ∈ s.users, u.status = .active → ∀ j ∈ s.store.durableJobs, IsDeletion j →
    j.userId ≠ u.id
  deleting : ∀ u ∈ s.users, u.status = .deleting → DeletionIs u.id .ready s

/-- A step of a user's status. -/
inductive StatusStep : UserStatus → UserStatus → Prop
  | same {status : UserStatus} : StatusStep status status
  | requested : StatusStep .active .deleting
  | deleted : StatusStep .deleting .deleted

/-- Nothing happened to the deletions, and to no user but that one may be new. -/
structure Quiet (s s' : State) : Prop where
  users : ∀ u ∈ s'.users, u ∈ s.users ∨ NewUser u ∧ ∀ u₀ ∈ s.users, u₀.id ≠ u.id
  jobs : ∀ j : DurableJob, IsDeletion j → (j ∈ s'.store.durableJobs ↔ j ∈ s.store.durableJobs)

theorem Quiet.same (husers : s'.users = s.users)
    (hjobs : s'.store.durableJobs = s.store.durableJobs) : Quiet s s' :=
  ⟨fun _ hu => .inl (husers ▸ hu), fun _ _ => by rw [hjobs]⟩

theorem Phased.quiet (hphased : Phased s) (hacc : Accounts s) (h : Quiet s s') : Phased s' where
  active u hu hactive j hj hdel huser := by
    have hj₀ := (h.jobs j hdel).mp hj
    rcases h.users u hu with hu | ⟨-, hnew⟩
    · exact hphased.active u hu hactive j hj₀ hdel huser
    · obtain ⟨u₀, hu₀, hid⟩ := hacc.user j hj₀ hdel
      exact hnew u₀ hu₀ (hid.trans huser)
  deleting u hu hdeleting := by
    rcases h.users u hu with hu | ⟨hnew, -⟩
    · obtain ⟨j, hj, hdel, huser, hready⟩ := hphased.deleting u hu hdeleting
      exact ⟨j, (h.jobs j hdel).mpr hj, hdel, huser, hready⟩
    · rw [hnew] at hdeleting
      cases hdeleting

/-- The user after a write on it, and the others as they were. -/
theorem mem_update_user {user : User} {t users : Table User}
    (h : UserRepository.update user t = some users) (hu' : u' ∈ users) :
    u' ∈ t ∧ u'.id ≠ user.id ∨ u'.id = user.id ∧ u'.status = user.status ∧ ∃ u ∈ t, u.id = user.id := by
  obtain ⟨u, hu, rfl⟩ := (mem_update? h).mp hu'
  by_cases hid : u.id = user.id
  · rw [updateRow_pos (p := fun r : User => decide (r.id = user.id)) (decide_eq_true hid)]
    exact .inr ⟨hid, rfl, u, hu, hid⟩
  · rw [updateRow_neg (p := fun r : User => decide (r.id = user.id)) (decide_eq_false hid)]
    exact .inl ⟨hu, hid⟩

/-! ## One transaction -/

theorem phased_requests {user : User} {now : Timestamp} {stamp : Stamp} {users : Table User}
    {durableJobs : Table DurableJob} (hacc : Accounts s) (hphased : Phased s)
    (hviews : ∀ n, Accounts (view n) ∧ AccountsLater (view n) s)
    (hread : UserRepository.get userId (view 0).users = some user)
    (hupdate : UserRepository.update { user with status := .deleting, updatedAt := now } s.users =
      some users)
    (hjob : RequestsJob userId stamp (view 1) s durableJobs)
    (horder : ∀ u ∈ s.users, u.id = userId → u.status ≠ .deleted) :
    Phased { s with users, store := { s.store with durableJobs } } := by
  have hid : user.id = userId := of_decide_eq_true (get_eq_some hread).2
  have hkept : ∀ j ∈ s.store.durableJobs, j ∈ durableJobs := by
    intro j hj
    cases hjob with
    | there => exact hj
    | added hinsert => exact (mem_insert? hinsert).mpr (.inl hj)
  have hcases : ∀ j ∈ durableJobs, j ∈ s.store.durableJobs ∨ j.userId = userId := by
    intro j hj
    cases hjob with
    | there => exact .inl hj
    | added hinsert =>
      rcases (mem_insert? hinsert).mp hj with hj | rfl
      · exact .inl hj
      · exact .inr rfl
  constructor
  · intro u hu hactive j hj hdel huser
    rcases mem_update_user hupdate hu with ⟨hu, hne⟩ | ⟨-, hstatus, -⟩
    · rcases hcases j hj with hj | hj
      · exact hphased.active u hu hactive j hj hdel huser
      · exact hne (huser.symm.trans (hj.trans hid.symm))
    · rw [hactive] at hstatus
      cases hstatus
  · intro u hu hdeleting
    rcases mem_update_user hupdate hu with ⟨hu, -⟩ | ⟨hid', -, u₀, hu₀, hid₀⟩
    · obtain ⟨j, hj, hdel, huser, hready⟩ := hphased.deleting u hu hdeleting
      exact ⟨j, hkept j hj, hdel, huser, hready⟩
    · have hu₀Id : u₀.id = userId := hid₀.trans hid
      have huId : u.id = userId := hid'.trans hid
      rw [huId]
      cases hstatus₀ : u₀.status with
      | deleted => exact absurd hstatus₀ (horder u₀ hu₀ hu₀Id)
      | deleting =>
        obtain ⟨j, hj, hdel, huser, hready⟩ := hphased.deleting u₀ hu₀ hstatus₀
        exact ⟨j, hkept j hj, hdel, huser.trans hu₀Id, hready⟩
      | active =>
        cases hjob with
        | there hread' =>
          -- the job that it read is there, so the user was not ACTIVE
          obtain ⟨hmem, hkey⟩ := get_eq_some hread'
          have hkey := of_decide_eq_true hkey
          have hdel : IsDeletion _ := .inr (hkey.2.trans (congrArg deletionKey hkey.1.symm))
          obtain ⟨j', hj', -, hsame, -⟩ := (hviews 1).2.jobs _ hmem hdel
          have huser' := hsame.userId.trans hkey.1
          exact absurd (huser'.trans hu₀Id.symm)
            (hphased.active u₀ hu₀ hstatus₀ j' hj' (hdel.same hsame))
        | added hinsert =>
          exact ⟨_, (mem_insert? hinsert).mpr (.inr rfl), isDeletion_deletionJob userId stamp, rfl,
            rfl⟩

theorem phased_deletes {now later : Timestamp} {reached : UUID → Bool} (hacc : Accounts s) (hphased : Phased s)
    (hviews : ∀ n, Accounts (view n) ∧ AccountsLater (view n) s) {durableJobs : Table DurableJob}
    (hready : ∃ j₀ ∈ s.store.durableJobs, SweepMove now reached j₀ j ∧
      claimReadyWhere .accountDeletion now j = true)
    (hdeletes : Deletes j.userId later view s s')
    (hjobs : s.store.durableJobs.Grows (JobSettles j.id now reached) (fun _ => False) durableJobs)
    (hread : (UserRepository.get j.userId (view 0).users).isSome) :
    Phased { s' with store := { s'.store with durableJobs } } := by
  obtain ⟨hj₀, hdel₀, hopen⟩ := hacc.ready hready
  -- the jobs of the other users stay, and the job of this one is settled
  have hcases : ∀ j' ∈ durableJobs, IsDeletion j' →
      j' ∈ s.store.durableJobs ∧ j'.userId ≠ j.userId ∨ j'.userId = j.userId := by
    intro j' hj' hdel
    obtain ⟨j₁, hj₁, hsettles⟩ := (hjobs.origin j' hj').resolve_right fun h => h
    by_cases huser : j'.userId = j.userId
    · exact .inr huser
    · have hsame : SameJob j₁ j' := by
        cases hsettles with
        | swept _ hmove => exact hmove.same
        | settled _ _ hsame => exact hsame
      rcases hsettles.deletion (hacc.not_claimed hj₁ (hdel.same hsame.symm)) with ⟨-, rfl⟩ |
        ⟨hid, -⟩
      · exact .inl ⟨hj₁, huser⟩
      · obtain rfl := job_ext hj₁ hj₀ hid
        exact .inr hsame.userId
  cases hdeletes with
  | passed hdeleted =>
    -- a user that was read as DELETED has its deletion settled already
    obtain ⟨user, huser⟩ := Option.isSome_iff_exists.mp hread
    exact absurd (hdeleted user huser)
      (hacc.not_deleted (hviews 0) ⟨j, hj₀, hdel₀, rfl, hopen⟩ huser)
  | deleted huser hstatus husers =>
    obtain ⟨user', hid, hdeleted, -, hupdate⟩ := husers
    have huserId : user'.id = j.userId := hid.trans (of_decide_eq_true (get_eq_some huser).2)
    constructor
    · intro u hu hactive j' hj' hdel huser'
      rcases mem_update_user hupdate hu with ⟨hu, hne⟩ | ⟨-, hstatus', -⟩
      · rcases hcases j' hj' hdel with ⟨hj', -⟩ | hsettled
        · exact hphased.active u hu hactive j' hj' hdel huser'
        · exact hne (huser'.symm.trans (hsettled.trans huserId.symm))
      · rw [hactive, hdeleted] at hstatus'
        cases hstatus'
    · intro u hu hdeleting
      rcases mem_update_user hupdate hu with ⟨hu, hne⟩ | ⟨-, hstatus', -⟩
      · obtain ⟨j₁, hj₁, hdel₁, huser₁, hready₁⟩ := hphased.deleting u hu hdeleting
        obtain ⟨j', hj', hsettles⟩ := hjobs.kept j₁ hj₁
        rcases hsettles.deletion (hacc.not_claimed hj₁ hdel₁) with ⟨-, rfl⟩ | ⟨hid₁, -⟩
        · exact ⟨j', hj', hdel₁, huser₁, hready₁⟩
        · obtain rfl := job_ext hj₁ hj₀ hid₁
          exact absurd (huser₁.symm.trans huserId.symm) hne
      · rw [hdeleting, hdeleted] at hstatus'
        cases hstatus'

theorem Effect.phased (hacc : Accounts s) (hphased : Phased s)
    (hviews : ∀ n, Accounts (view n) ∧ AccountsLater (view n) s) (horder : op.InOrder view s)
    (h : Effect hash sessionTtl view s op s' reply) : Phased s' := by
  have hsame : ∀ {s' : State}, s'.users = s.users →
      s'.store.durableJobs = s.store.durableJobs → Phased s' := fun husers hjobs =>
    hphased.quiet hacc (.same husers hjobs)
  cases h with
  | nothing => exact hphased
  | login huser =>
    refine hphased.quiet hacc ⟨fun u hu => ?_, fun _ _ => Iff.rfl⟩
    cases huser with
    | created hread hinsert =>
      rcases (mem_insert? hinsert).mp hu with hu | rfl
      · exact .inl hu
      · exact .inr ⟨newUser_new, fun u₀ hu₀ hid =>
          not_conflict_of_insert? hinsert hu₀ (.inl hid)⟩
    | found => exact .inl hu
  | refresh => exact hsame rfl rfl
  | logout => exact hsame rfl rfl
  | registers => exact hsame rfl rfl
  | upserts => exact hsame rfl rfl
  | detaches => exact hsame rfl rfl
  | requests hread hstatus huser hjob =>
    exact phased_requests hacc hphased hviews hread huser hjob (horder _ hread hstatus)
  | deletes hclaimed hready hdeletes hjobs =>
    obtain ⟨job, hjob, huser⟩ := hclaimed
    exact phased_deletes hacc hphased hviews hready hdeletes hjobs (huser ▸ horder job hjob)
  | claims hjobs hreply =>
    exact hphased.quiet hacc ⟨fun u hu => .inl hu, fun j hdel => mem_of_claims hacc hjobs hdel⟩
  | ensures =>
    refine hphased.quiet hacc ⟨fun u hu => ?_, fun _ _ => Iff.rfl⟩
    rcases mem_insertOrIgnore_cases hu with hu | ⟨rfl, hnew⟩
    · exact .inl hu
    · exact .inr ⟨rfl, fun u₀ hu₀ hid => hnew u₀ hu₀ (.inl hid)⟩
  | other hforeign => exact hphased.quiet hacc ⟨fun u hu => .inl (hforeign.users ▸ hu), hforeign.jobs⟩

/-- What a transaction makes of the status of a user. -/
theorem commit_status (hacc : Accounts s) (hphased : Phased s)
    (hviews : ∀ n, Accounts (view n) ∧ AccountsLater (view n) s) (horder : op.InOrder view s)
    (hu : u ∈ s.users) :
    ∃ u' ∈ (commit hash sessionTtl op view s).1.users, u'.id = u.id ∧
      StatusStep u.status u'.status := by
  have heffect := commit_effect hash sessionTtl view (s := s) op
  obtain ⟨u', hu', hmove⟩ := (heffect.users hacc).kept u hu
  refine ⟨u', hu', hmove.id, ?_⟩
  cases hmove with
  | kept => exact .same
  | requested hop hread hstatus hid hdeleting =>
    subst hop
    rw [hdeleting]
    cases hstatus₀ : u.status with
    | active => exact .requested
    | deleting => exact .same
    | deleted => exact absurd hstatus₀ (horder _ hread hstatus u hu rfl)
  | deleted hop hid hdeleted hdone =>
    rw [hdeleted]
    cases hstatus₀ : u.status with
    | deleting => exact .deleted
    | deleted => exact .same
    | active =>
      -- nobody asked to delete an ACTIVE user, so no deletion of it is settled
      subst hop
      obtain ⟨j', hj', hdel, huser, -⟩ := hdone
      rcases (heffect.deletions hacc).2 j' hj' hdel with ⟨j, hj, hdel₀, hmove⟩ | ⟨_, _, _, _, hop, -⟩
      · exact absurd (hmove.same.userId.symm.trans huser)
          (hphased.active u hu hstatus₀ j hj hdel₀)
      · cases hop

/-! ## Every history -/

theorem phased_stable : Program.Stable (system hash sessionTtl)
    (fun op view s => op.InOrder view s) (fun s => Accounts s ∧ Phased s) AccountsLater := by
  refine (accounts_stable _).strengthen Phased ?_ ?_
  · rintro s rfl
    exact ⟨fun u hu => absurd hu not_mem_empty, fun u hu => absurd hu not_mem_empty⟩
  · intro op view s hacc hphased hviews horder
    exact (commit_effect _ _ _ op).phased hacc hphased (fun n => ⟨(hviews n).1, (hviews n).2.2⟩) horder

/-- In a history in which no request writes back a user that was deleted since, users only move from
ACTIVE to DELETING and from DELETING to DELETED, and a user that is DELETING has a job that is to delete
it. -/
theorem deletion_oneWay
    (hr : (system hash sessionTtl).ReachableIf (fun op view s => op.InOrder view s) h) :
    (∀ k s s', h.states[k + 1]? = some s → h.states[k]? = some s' → ∀ u ∈ s.users,
      ∃ u' ∈ s'.users, u'.id = u.id ∧ StatusStep u.status u'.status) ∧
    ∀ s ∈ h.states, ∀ u ∈ s.users, u.status = .deleting → ∃ j ∈ s.store.durableJobs,
      j.kind = .accountDeletion ∧ j.userId = u.id ∧
        (j.status = .ready ∨ j.status = .claimed ∨ j.status = .failed) := by
  constructor
  · intro k s s' hs hs'
    exact phased_stable.adjacent (R := fun s s' => ∀ u ∈ s.users, ∃ u' ∈ s'.users, u'.id = u.id ∧
      StatusStep u.status u'.status) (fun op view s hinv hviews horder u hu =>
        commit_status hinv.1 hinv.2 (fun n => ⟨(hviews n).1.1, (hviews n).2⟩) horder hu) hr hs hs'
  · intro s hs u hu hdeleting
    obtain ⟨hacc, hphased⟩ := phased_stable.inv_mem hr hs
    obtain ⟨j, hj, hdel, huser, hready⟩ := hphased.deleting u hu hdeleting
    exact ⟨j, hj, hacc.kind j hj hdel, huser, .inl hready⟩

/-- A login, a request to delete the account, and the deletion. -/
def deletedAccount : List Op :=
  [.login { externalSubject := "subject" } "token" (stampsFrom 10 0), .requestDeletion 10 1 ⟨20, 1⟩,
    .runDeletion 5 60 2 3 (fun _ => true) (fun _ => false)]

theorem deletedAccount_inOrder : (system id 100).SerialMeets (fun op view s => op.InOrder view s)
    ⟨{}, [], []⟩ deletedAccount := by
  refine ⟨trivial, fun user hread hstatus u hu hid => ?_, fun job hjob => ?_, trivial⟩
  · obtain ⟨hmem, hid'⟩ := get_eq_some hread
    obtain rfl := eq_of_conflict hu hmem (.inl (hid.trans (of_decide_eq_true hid').symm))
    exact hstatus
  · have hall : ((claimReadyJobs .accountDeletion (workerOwner 5) 2 62 1 (fun _ => true)
        (fun _ => false) ((system id 100).serial {}
          (deletedAccount.take 2)).cur.store.durableJobs).2.all fun job =>
            (UserRepository.get job.userId ((system id 100).serial {}
              (deletedAccount.take 2)).cur.users).isSome) = true := by
      decide +kernel
    exact List.all_eq_true.mp hall job hjob

/-- The user that asked to be deleted has its job. -/
theorem deletion_oneWay_deletedAccount :
    ∃ j ∈ (((system id 100).serial {} deletedAccount).stateAt ⟨2, by decide⟩).store.durableJobs,
      j.kind = .accountDeletion ∧ j.userId = 10 ∧
        (j.status = .ready ∨ j.status = .claimed ∨ j.status = .failed) := by
  obtain ⟨u, hu, hid, hdeleting⟩ : ∃ u ∈ (((system id 100).serial {} deletedAccount).stateAt
      ⟨2, by decide⟩).users.rows, u.id = 10 ∧ u.status = .deleting := by
    decide +kernel
  have hjob := (deletion_oneWay
    ((system id 100).serial_reachableIf rfl _ deletedAccount_inOrder)).2 _
      (History.stateAt_mem _ ⟨2, by decide⟩) u hu hdeleting
  rwa [hid] at hjob

/-- A second request read the user before the account was deleted, and commits after it. -/
def requestedLate : History State Op Reply :=
  (system id 100).extend ((system id 100).serial {} deletedAccount) (.requestDeletion 10 4 ⟨30, 4⟩)
    fun _ => ((system id 100).serial {} deletedAccount).stateAt ⟨2, by decide⟩

/-- A user that was DELETED is DELETING again, and its job is COMPLETED. -/
theorem deletion_undone :
    ∃ h : History State Op Reply, (system id 100).Reachable h ∧
      (∃ s ∈ h.states, ∃ u ∈ s.users, u.id = 10 ∧ u.status = .deleted) ∧
      ∃ u ∈ h.cur.users, u.id = 10 ∧ u.status = .deleting ∧
        ∀ j ∈ h.cur.store.durableJobs, j.userId = 10 → j.status = .completed := by
  have hreach : (system id 100).Reachable requestedLate :=
    ((system id 100).serial_reachable rfl _).commit _ _ (fun _ => History.stateAt_mem _ _) trivial
  have hdeleted : ∃ u ∈ (requestedLate.stateAt ⟨3, by decide⟩).users.rows,
      u.id = 10 ∧ u.status = .deleted := by
    decide +kernel
  have hdeleting : ∃ u ∈ requestedLate.cur.users.rows, u.id = 10 ∧ u.status = .deleting ∧
      ∀ j ∈ requestedLate.cur.store.durableJobs.rows, j.userId = 10 → j.status = .completed := by
    decide +kernel
  exact ⟨requestedLate, hreach, ⟨_, History.stateAt_mem _ _, hdeleted⟩, hdeleting⟩

end Identity
