import Laoshiren.Identity.Proofs.EffectProofs

/-!
# Accounts and their deletions

What holds of users and of the jobs of deletions in every history: a job is READY until a worker settles
it in the transaction that claims it, it belongs to a user that is there, and the deletion of a user that
is DELETED is settled.
-/

namespace Identity

open Runtime Raise Table DurableJobRepository

variable {hash : String → String} {sessionTtl : ℤ} {view : ℕ → State} {v s s' : State} {op : Op}
  {reply : Reply} {j j' : DurableJob} {u u' : User} {userId : UUID}

/-! ## The invariant -/

/-- The deletion of the user has this status. -/
def DeletionIs (userId : UUID) (status : DurableJobStatus) (s : State) : Prop :=
  ∃ j ∈ s.store.durableJobs, IsDeletion j ∧ j.userId = userId ∧ j.status = status

/-- The jobs of deletions, and the users that they are about. -/
structure Accounts (s : State) : Prop where
  kind : ∀ j ∈ s.store.durableJobs, IsDeletion j → j.kind = .accountDeletion
  key : ∀ j ∈ s.store.durableJobs, IsDeletion j → j.dedupeKey = deletionKey j.userId
  status : ∀ j ∈ s.store.durableJobs, IsDeletion j → j.status = .ready ∨ j.status = .completed
  user : ∀ j ∈ s.store.durableJobs, IsDeletion j → ∃ u ∈ s.users, u.id = j.userId
  deleted : ∀ u ∈ s.users, u.status = .deleted → DeletionIs u.id .completed s

/-- What stays: users and deletions, and that a deletion is settled. -/
structure AccountsLater (v s : State) : Prop where
  users : ∀ u ∈ v.users, ∃ u' ∈ s.users, u'.id = u.id
  jobs : ∀ j ∈ v.store.durableJobs, IsDeletion j → ∃ j' ∈ s.store.durableJobs, j'.id = j.id ∧
    SameJob j j' ∧ (j.status = .completed → j'.status = .completed)

theorem IsDeletion.same (h : IsDeletion j) (hsame : SameJob j j') : IsDeletion j' := by
  unfold IsDeletion at h ⊢
  rwa [hsame.kind, hsame.dedupeKey, hsame.userId]

theorem AccountsLater.refl (s : State) : AccountsLater s s :=
  ⟨fun u hu => ⟨u, hu, rfl⟩, fun j hj _ => ⟨j, hj, rfl, .refl j, fun h => h⟩⟩

theorem AccountsLater.trans {s₁ s₂ s₃ : State} (h : AccountsLater s₁ s₂) (h' : AccountsLater s₂ s₃) :
    AccountsLater s₁ s₃ where
  users u hu := by
    obtain ⟨u₂, hu₂, hid⟩ := h.users u hu
    obtain ⟨u₃, hu₃, hid'⟩ := h'.users u₂ hu₂
    exact ⟨u₃, hu₃, hid'.trans hid⟩
  jobs j hj hdel := by
    obtain ⟨j₂, hj₂, hid, hsame, hover⟩ := h.jobs j hj hdel
    obtain ⟨j₃, hj₃, hid', hsame', hover'⟩ := h'.jobs j₂ hj₂ (hdel.same hsame)
    exact ⟨j₃, hj₃, hid'.trans hid, hsame.trans hsame', fun hdone => hover' (hover hdone)⟩

/-- A user has one deletion at most. -/
theorem Accounts.unique (h : Accounts s) (hj : j ∈ s.store.durableJobs)
    (hj' : j' ∈ s.store.durableJobs) (hdel : IsDeletion j) (hdel' : IsDeletion j')
    (huser : j.userId = j'.userId) : j = j' := by
  refine eq_of_conflict hj hj' (.inr ⟨huser, ?_⟩)
  rw [h.key j hj hdel, h.key j' hj' hdel', huser]

theorem Accounts.status_unique (h : Accounts s) {a b : DurableJobStatus} (ha : DeletionIs userId a s)
    (hb : DeletionIs userId b s) : a = b := by
  obtain ⟨j, hj, hdel, huser, rfl⟩ := ha
  obtain ⟨j', hj', hdel', huser', rfl⟩ := hb
  rw [h.unique hj hj' hdel hdel' (huser.trans huser'.symm)]

/-- A deletion that is settled stays so. -/
theorem AccountsLater.completed (h : AccountsLater v s) (hdone : DeletionIs userId .completed v) :
    DeletionIs userId .completed s := by
  obtain ⟨j, hj, hdel, huser, hstatus⟩ := hdone
  obtain ⟨j', hj', -, hsame, hover⟩ := h.jobs j hj hdel
  exact ⟨j', hj', hdel.same hsame, hsame.userId.trans huser, hover hstatus⟩

/-! ## What becomes of the jobs of deletions -/

/-- A sweep reaches no job that is not claimed. -/
theorem SweepMove.eq_self {now : Timestamp} {reached : UUID → Bool}
    (h : SweepMove now reached j j') (hstatus : j.status ≠ .claimed) : j' = j := by
  cases h with
  | kept => rfl
  | requeued hreached hp => simp [retryableWhere, expired, hstatus] at hp
  | givenUp hreached hp => simp [exhaustedWhere, expired, hstatus] at hp

/-- What a transaction makes of the job of a deletion: a worker may settle it. -/
inductive DeletionMove (op : Op) : DurableJob → DurableJob → Prop
  | kept {j : DurableJob} : DeletionMove op j j
  | settled {j j' : DurableJob} {worker : UUID} {lease : ℤ} {now later : Timestamp}
      {reached locked : UUID → Bool} (hop : op = .runDeletion worker lease now later reached locked)
      (hid : j'.id = j.id) (hsame : SameJob j j') (hstatus : j.status = .ready)
      (hstatus' : j'.status = .completed) : DeletionMove op j j'

/-- A job that a request adds, for a user that it read. -/
def Requested (op : Op) (view : ℕ → State) (j : DurableJob) : Prop :=
  ∃ userId now stamp user, op = .requestDeletion userId now stamp ∧ j = deletionJob userId stamp ∧
    UserRepository.get userId (view 0).users = some user

theorem JobSettles.deletion {settled : UUID} {now : Timestamp} {reached : UUID → Bool}
    (h : JobSettles settled now reached j j') (hstatus : j.status ≠ .claimed) :
    j.id ≠ settled ∧ j' = j ∨
      j.id = settled ∧ j'.id = j.id ∧ SameJob j j' ∧ j'.status = .completed := by
  cases h with
  | swept hid hmove => exact .inl ⟨hid, SweepMove.eq_self hmove hstatus⟩
  | settled hid hid' hsame hdone => exact .inr ⟨hid, hid', hsame, hdone⟩

theorem Accounts.not_claimed (h : Accounts s) (hj : j ∈ s.store.durableJobs) (hdel : IsDeletion j) :
    j.status ≠ .claimed := by
  rcases h.status j hj hdel with hstatus | hstatus <;> simp [hstatus]

/-- The job that a deletion worker claims was READY before the sweep. -/
theorem Accounts.ready (h : Accounts s) {now : Timestamp} {reached : UUID → Bool}
    (hready : ∃ j₀ ∈ s.store.durableJobs, SweepMove now reached j₀ j ∧
      claimReadyWhere .accountDeletion now j = true) :
    j ∈ s.store.durableJobs ∧ IsDeletion j ∧ j.status = .ready := by
  obtain ⟨j₀, hj₀, hmove, hclaim⟩ := hready
  have hwhere := of_decide_eq_true hclaim
  have hdel : IsDeletion j₀ := .inl (hmove.same.kind.symm.trans hwhere.1)
  obtain rfl := SweepMove.eq_self hmove (h.not_claimed hj₀ hdel)
  exact ⟨hj₀, hdel, hwhere.2.1⟩

/-- A user whose deletion is still to be carried out was not DELETED at any time before. -/
theorem Accounts.not_deleted (h : Accounts s) {user : User}
    (hview : Accounts v ∧ AccountsLater v s) (hopen : DeletionIs userId .ready s)
    (hread : UserRepository.get userId v.users = some user) : user.status ≠ .deleted := by
  intro hdeleted
  obtain ⟨hmem, hid⟩ := get_eq_some hread
  have hdone := hview.2.completed (hview.1.deleted user hmem hdeleted)
  rw [of_decide_eq_true hid] at hdone
  cases h.status_unique hdone hopen

theorem isDeletion_deletionJob (userId : UUID) (stamp : Stamp) :
    IsDeletion (deletionJob userId stamp) := .inl rfl

/-- A claim of other jobs leaves the jobs of deletions alone. -/
theorem mem_of_claims {kind : DurableJobKind} {owner : String} {now leaseUntil : Timestamp}
    {reached : UUID → Bool} {durableJobs : Table DurableJob} (hacc : Accounts s)
    (hjobs : s.store.durableJobs.Moves (fun j j' => SweepMove now reached j j' ∨
      j.kind ≠ .accountDeletion ∧ ClaimMove kind owner now leaseUntil reached j j') durableJobs)
    (hdel : IsDeletion j) : j ∈ durableJobs ↔ j ∈ s.store.durableJobs := by
  have hstep : ∀ j ∈ s.store.durableJobs, IsDeletion j → ∀ j', (SweepMove now reached j j' ∨
      j.kind ≠ .accountDeletion ∧ ClaimMove kind owner now leaseUntil reached j j') → j' = j := by
    intro j hj hdel j' hmove
    rcases hmove with hmove | ⟨hkind, -⟩
    · exact SweepMove.eq_self hmove (hacc.not_claimed hj hdel)
    · exact absurd (hacc.kind j hj hdel) hkind
  constructor
  · intro hj
    obtain ⟨j₀, hj₀, hmove⟩ := hjobs.mem hj
    have hsame : SameJob j j₀ := by
      rcases hmove with hmove | ⟨-, hmove⟩
      · exact hmove.same.symm
      · exact hmove.same.symm
    rwa [hstep j₀ hj₀ (hdel.same hsame) j hmove]
  · intro hj
    obtain ⟨j', hj', hmove⟩ := hjobs.exists_mem hj
    rwa [← hstep j hj hdel j' hmove]

/-- The jobs of deletions after a transaction. -/
theorem Effect.deletions (hacc : Accounts s) (h : Effect hash sessionTtl view s op s' reply) :
    (∀ j ∈ s.store.durableJobs, IsDeletion j →
      ∃ j' ∈ s'.store.durableJobs, DeletionMove op j j') ∧
    ∀ j' ∈ s'.store.durableJobs, IsDeletion j' →
      (∃ j ∈ s.store.durableJobs, IsDeletion j ∧ DeletionMove op j j') ∨ Requested op view j' := by
  have hkept : ∀ {s' : State}, s'.store.durableJobs = s.store.durableJobs →
      (∀ j ∈ s.store.durableJobs, IsDeletion j →
        ∃ j' ∈ s'.store.durableJobs, DeletionMove op j j') ∧
      ∀ j' ∈ s'.store.durableJobs, IsDeletion j' →
        (∃ j ∈ s.store.durableJobs, IsDeletion j ∧ DeletionMove op j j') ∨ Requested op view j' := by
    intro s' hjobs
    rw [hjobs]
    exact ⟨fun j hj _ => ⟨j, hj, .kept⟩, fun j hj hdel => .inl ⟨j, hj, hdel, .kept⟩⟩
  cases h with
  | nothing => exact hkept rfl
  | login => exact hkept rfl
  | refresh => exact hkept rfl
  | logout => exact hkept rfl
  | registers => exact hkept rfl
  | upserts => exact hkept rfl
  | detaches => exact hkept rfl
  | ensures => exact hkept rfl
  | requests hread hstatus huser hjob =>
    cases hjob with
    | there hread' => exact hkept rfl
    | added hinsert =>
      refine ⟨fun j hj _ => ⟨j, (mem_insert? hinsert).mpr (.inl hj), .kept⟩, fun j' hj' hdel => ?_⟩
      rcases (mem_insert? hinsert).mp hj' with hj | rfl
      · exact .inl ⟨j', hj, hdel, .kept⟩
      · exact .inr ⟨_, _, _, _, rfl, rfl, hread⟩
  | @deletes worker lease now later reached locked settled s' durableJobs hclaimed hready hdeletes hjobs =>
    obtain ⟨hj₀, hdel₀, hready⟩ := hacc.ready hready
    -- the one that is settled is the one that was ready
    have hstep : ∀ j ∈ s.store.durableJobs, IsDeletion j → ∀ j',
        JobSettles settled.id now reached j j' →
        DeletionMove (.runDeletion worker lease now later reached locked) j j' := by
      intro j hj hdel j' hsettles
      rcases hsettles.deletion (hacc.not_claimed hj hdel) with ⟨-, rfl⟩ | ⟨hid, hid', hsame, hdone⟩
      · exact .kept
      · obtain rfl := job_ext hj hj₀ hid
        exact .settled rfl hid' hsame hready hdone
    refine ⟨fun j hj hdel => ?_, fun j' hj' hdel => .inl ?_⟩
    · obtain ⟨j', hj', hsettles⟩ := hjobs.kept j hj
      exact ⟨j', hj', hstep j hj hdel j' hsettles⟩
    · obtain ⟨j, hj, hsettles⟩ := (hjobs.origin j' hj').resolve_right fun h => h
      have hsame : SameJob j' j := by
        cases hsettles with
        | swept _ hmove => exact hmove.same.symm
        | settled _ _ hsame => exact hsame.symm
      exact ⟨j, hj, hdel.same hsame, hstep j hj (hdel.same hsame) j' hsettles⟩
  | claims hjobs hreply =>
    have hsame := fun j hdel => mem_of_claims (j := j) hacc hjobs hdel
    exact ⟨fun j hj hdel => ⟨j, (hsame j hdel).mpr hj, .kept⟩,
      fun j hj hdel => .inl ⟨j, (hsame j hdel).mp hj, hdel, .kept⟩⟩
  | other hforeign =>
    exact ⟨fun j hj hdel => ⟨j, (hforeign.jobs j hdel).mpr hj, .kept⟩,
      fun j hj hdel => .inl ⟨j, (hforeign.jobs j hdel).mp hj, hdel, .kept⟩⟩

/-! ## What becomes of the users -/

/-- What a transaction makes of a user, with what a request read and what a deletion settled. -/
inductive UserMove (op : Op) (view : ℕ → State) (s' : State) (u : User) : User → Prop
  | kept : UserMove op view s' u u
  | requested {u' read : User} {now : Timestamp} {stamp : Stamp}
      (hop : op = .requestDeletion u.id now stamp)
      (hread : UserRepository.get u.id (view 0).users = some read) (hstatus : read.status ≠ .deleted)
      (hid : u'.id = u.id) (hdeleting : u'.status = .deleting) : UserMove op view s' u u'
  | deleted {u' : User} {worker : UUID} {lease : ℤ} {now later : Timestamp}
      {reached locked : UUID → Bool} (hop : op = .runDeletion worker lease now later reached locked)
      (hid : u'.id = u.id) (hdeleted : u'.status = .deleted)
      (hdone : DeletionIs u.id .completed s') : UserMove op view s' u u'

theorem UserMove.id (h : UserMove op view s' u u') : u'.id = u.id := by
  cases h with
  | kept => rfl
  | requested hop hread hstatus hid => exact hid
  | deleted hop hid => exact hid

/-- A user that was added. -/
def NewUser (u : User) : Prop := u.status = .active

theorem newUser_new {externalSubject : String} {stamp : Stamp} :
    NewUser (newUser externalSubject stamp) := rfl

theorem grows_update {op : Op} {new : User → Prop} {user : User} {t users : Table User}
    (h : UserRepository.update user t = some users)
    (hmove : ∀ u ∈ t, u.id = user.id →
      UserMove op view s' u (UserRepository.updateValues user u)) :
    t.Grows (UserMove op view s') new users := by
  have hrows : t.Moves (UserMove op view s') users := by
    refine ⟨updateRow (fun r => r.id = user.id) (UserRepository.updateValues user),
      rows_update? h, fun u hu => ?_⟩
    by_cases hid : u.id = user.id
    · rw [updateRow_pos (p := fun r : User => decide (r.id = user.id)) (decide_eq_true hid)]
      exact hmove u hu hid
    · rw [updateRow_neg (p := fun r : User => decide (r.id = user.id)) (decide_eq_false hid)]
      exact .kept
  exact .of_moves hrows

/-- The users after a transaction. -/
theorem Effect.users (hacc : Accounts s) (h : Effect hash sessionTtl view s op s' reply) :
    s.users.Grows (UserMove op view s') NewUser s'.users := by
  have hkept : s.users.Grows (UserMove op view s') NewUser s.users := .refl (fun _ => .kept) _
  cases h with
  | nothing => exact hkept
  | login huser =>
    cases huser with
    | created hread hinsert => exact .insert? (fun _ => .kept) newUser_new hinsert
    | found => exact hkept
  | refresh => exact hkept
  | logout => exact hkept
  | registers => exact hkept
  | upserts => exact hkept
  | detaches => exact hkept
  | requests hread hstatus huser hjob =>
    have hid := of_decide_eq_true (get_eq_some hread).2
    refine grows_update huser fun u hu hid' => ?_
    have huserId := hid'.trans hid
    exact .requested (by rw [huserId]) (by rw [huserId]; exact hread) hstatus rfl rfl
  | @deletes worker lease now later reached locked settled deleted durableJobs hclaimed hready hdeletes hjobs =>
    cases hdeletes with
    | passed => exact hkept
    | deleted hread hstatus husers =>
      obtain ⟨user', hid, hdeleted, -, hupdate⟩ := husers
      have hsettled := of_decide_eq_true (get_eq_some hread).2
      refine grows_update hupdate fun u hu hid' => .deleted rfl rfl hdeleted ?_
      obtain ⟨hj₀, hdel, -⟩ := hacc.ready hready
      obtain ⟨j', hj', hsettles⟩ := hjobs.kept _ hj₀
      rcases hsettles.deletion (hacc.not_claimed hj₀ hdel) with ⟨hne, -⟩ | ⟨-, -, hsame, hdone⟩
      · exact absurd rfl hne
      · exact ⟨j', hj', hdel.same hsame, hsame.userId.trans (hsettled.symm.trans
          (hid.symm.trans hid'.symm)), hdone⟩
  | claims => exact hkept
  | ensures =>
    refine ⟨fun u hu => ⟨u, mem_insertOrIgnore_of_mem hu, .kept⟩, fun u hu => ?_⟩
    rcases mem_insertOrIgnore hu with hu | rfl
    · exact .inl ⟨u, hu, .kept⟩
    · exact .inr rfl
  | other hforeign =>
    rw [hforeign.users]
    exact hkept

/-! ## Every history -/

theorem DeletionMove.same (h : DeletionMove op j j') : SameJob j j' := by
  cases h with
  | kept => exact .refl j
  | settled hop hid hsame => exact hsame

theorem DeletionMove.id (h : DeletionMove op j j') : j'.id = j.id := by
  cases h with
  | kept => rfl
  | settled hop hid hsame => exact hid

variable (hash sessionTtl view) in
theorem commit_later (hacc : Accounts s) (op : Op) :
    AccountsLater s (commit hash sessionTtl op view s).1 := by
  have heffect := commit_effect hash sessionTtl view (s := s) op
  refine ⟨fun u hu => ?_, fun j hj hdel => ?_⟩
  · obtain ⟨u', hu', hmove⟩ := (heffect.users hacc).kept u hu
    exact ⟨u', hu', hmove.id⟩
  · obtain ⟨j', hj', hmove⟩ := (heffect.deletions hacc).1 j hj hdel
    refine ⟨j', hj', hmove.id, hmove.same, fun hdone => ?_⟩
    cases hmove with
    | kept => exact hdone
    | settled hop hid hsame hready hdone' => exact hdone'

theorem commit_accounts (hacc : Accounts s)
    (hviews : ∀ n, Accounts (view n) ∧ AccountsLater (view n) s) (op : Op) :
    Accounts (commit hash sessionTtl op view s).1 := by
  have heffect := commit_effect hash sessionTtl view (s := s) op
  have hlater := commit_later hash sessionTtl view hacc op
  have hnew : ∀ j ∈ (commit hash sessionTtl op view s).1.store.durableJobs, IsDeletion j →
      (∃ j₀ ∈ s.store.durableJobs, IsDeletion j₀ ∧ DeletionMove op j₀ j) ∨ Requested op view j :=
    (heffect.deletions hacc).2
  constructor
  · intro j hj hdel
    rcases hnew j hj hdel with ⟨j₀, hj₀, hdel₀, hmove⟩ | ⟨_, _, _, _, -, rfl, -⟩
    · exact hmove.same.kind.trans (hacc.kind j₀ hj₀ hdel₀)
    · rfl
  · intro j hj hdel
    rcases hnew j hj hdel with ⟨j₀, hj₀, hdel₀, hmove⟩ | ⟨_, _, _, _, -, rfl, -⟩
    · rw [hmove.same.dedupeKey, hmove.same.userId]
      exact hacc.key j₀ hj₀ hdel₀
    · rfl
  · intro j hj hdel
    rcases hnew j hj hdel with ⟨j₀, hj₀, hdel₀, hmove⟩ | ⟨_, _, _, _, -, rfl, -⟩
    · cases hmove with
      | kept => exact hacc.status j hj₀ hdel₀
      | settled hop hid hsame hready hdone => exact .inr hdone
    · exact .inl rfl
  · intro j hj hdel
    rcases hnew j hj hdel with ⟨j₀, hj₀, hdel₀, hmove⟩ | ⟨userId, now, stamp, user, -, rfl,
        hread⟩
    · obtain ⟨u, hu, huser⟩ := hacc.user j₀ hj₀ hdel₀
      obtain ⟨u', hu', hid⟩ := hlater.users u hu
      exact ⟨u', hu', hid.trans (huser.trans hmove.same.userId.symm)⟩
    · -- the request that added the job read its user
      obtain ⟨hmem, hid⟩ := get_eq_some hread
      obtain ⟨u, hu, hid'⟩ := (hviews 0).2.users user hmem
      obtain ⟨u', hu', hid''⟩ := hlater.users u hu
      exact ⟨u', hu', hid''.trans (hid'.trans (of_decide_eq_true hid))⟩
  · intro u' hu' hdeleted
    rcases (heffect.users hacc).origin u' hu' with ⟨u, hu, hmove⟩ | hactive
    · cases hmove with
      | kept => exact hlater.completed (hacc.deleted u' hu hdeleted)
      | requested hop hread hstatus hid hdeleting =>
        rw [hdeleting] at hdeleted
        cases hdeleted
      | deleted hop hid hdeleted' hdone =>
        rw [hid]
        exact hdone
    · rw [hactive] at hdeleted
      cases hdeleted

theorem accounts_stable (ok : Op → (ℕ → State) → State → Prop) :
    Program.Stable (system hash sessionTtl) ok Accounts AccountsLater where
  init s hs := by
    obtain rfl : s = {} := hs
    constructor
    all_goals exact fun _ h => absurd h not_mem_empty
  refl := AccountsLater.refl
  trans _ _ _ := AccountsLater.trans
  step op _ _ hacc hviews _ := ⟨commit_accounts hacc hviews op, commit_later _ _ _ hacc op⟩

end Identity
