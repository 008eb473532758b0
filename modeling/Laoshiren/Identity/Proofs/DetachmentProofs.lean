import Laoshiren.Identity.Proofs.AccountProofs
import Laoshiren.Identity.Proofs.RefreshProofs

/-!
# What is attached to a deleted account

A deletion revokes the sessions, deactivates the devices and invalidates the push endpoints that its
statements find; a login, a refresh, a registration and a push token check what they read and write
later. Where none of them commits once the deletion has, and the statements of the deletion find all that
is there, nothing is attached to the account from then on (`detached_stays`).
-/

namespace Identity

open Runtime Raise Table DurableJobRepository
open Automations (PushEndpoint)
open Automations.EndpointRepository (eligible listEligible invalidate)

variable {hash : String → String} {sessionTtl : ℤ} {view : ℕ → State} {v s s' : State} {op : Op}
  {reply : Reply} {j j' : DurableJob} {u u' : User} {userId deviceId : UUID}
  {h : History State Op Reply}

/-- The deletion of the user has committed. -/
abbrev Deleted (userId : UUID) (s : State) : Prop := DeletionIs userId .completed s

/-- Nothing is attached to the user. -/
structure Detached (userId : UUID) (s : State) : Prop where
  sessions : ∀ r ∈ s.businessSessions, r.userId = userId → r.revokedAt ≠ none
  devices : ∀ d ∈ s.devices, d.userId = userId → d.active = false
  endpoints : ∀ e ∈ s.endpoints, eligible userId e = false

/-! ## The condition -/

/-- Who owns the device, or will own it. -/
def State.deviceOwner (userId deviceId : UUID) (s : State) : UUID :=
  ((DeviceRepository.get deviceId s.devices).map Device.userId).getD userId

/-- The user that a login is for. -/
def HuaweiLogin.owner (c : HuaweiLogin) (stamp : Stamp) (seen : State) : UUID :=
  ((UserRepository.getByExternalSubject c.externalSubject seen.users).map User.id).getD stamp.id

/-- The statements of a deletion find what is attached to the user. -/
structure FindsAll (userId : UUID) (view : ℕ → State) (s : State) : Prop where
  user : (UserRepository.get userId (view 0).users).isSome
  endpoints : ∀ e ∈ s.endpoints, eligible userId e = true → ∃ e' ∈ (view 2).endpoints, e'.id = e.id ∧
    e'.userId = userId
  devices : ∀ d ∈ s.devices, d.userId = userId → d.active = true → ∃ d' ∈ (view 3).devices,
    d'.id = d.id ∧ d'.userId = userId ∧ d'.active = true
  sessions : ∀ r ∈ s.businessSessions, r.userId = userId → r.revokedAt = none →
    ∃ r' ∈ (view 4).businessSessions, r'.id = r.id ∧ r'.userId = userId ∧ r'.revokedAt = none

/-- A call whose checks pass on what it read attaches nothing to a user whose deletion has committed, and a
deletion finds what is attached. -/
def Op.InTime (hash : String → String) (view : ℕ → State) (s : State) : Op → Prop
  | .login c _ fresh =>
    (∀ user, UserRepository.getByExternalSubject c.externalSubject (view 0).users = some user →
      user.status = .active → ¬Deleted user.id s) ∧
    ∀ deviceId, c.deviceId = some deviceId → c.timezoneName.isSome →
      (UserRepository.getByExternalSubject c.externalSubject (view 0).users).all
        (·.status = .active) = true →
      (view 1).deviceFree (c.owner (fresh 0) (view 0)) deviceId = true →
      ¬Deleted (s.deviceOwner (c.owner (fresh 0) (view 0)) deviceId) s
  | .refresh accessToken _ _ => ∀ session,
    SessionRepository.getByTokenHash (hash accessToken) (view 0).businessSessions = some session →
    session.revokedAt = none → (view 1).hasActive session.userId = true → ¬Deleted session.userId s
  | .registerDevice userId deviceId timezoneName _ _ => Text.strip timezoneName ≠ "" →
    (view 0).hasActive userId = true → (view 1).deviceFree userId deviceId = true →
    ¬Deleted (s.deviceOwner userId deviceId) s
  | .upsertPushToken userId deviceId pushToken _ _ => Text.strip pushToken ≠ "" →
    (DeviceRepository.getForUser userId deviceId (view 0).devices).isSome → ¬Deleted userId s
  | .runDeletion worker lease now _ reached locked =>
    ∀ job ∈ (claimReadyJobs .accountDeletion (workerOwner worker) now (now + lease) 1 reached locked
      s.store.durableJobs).2, FindsAll job.userId view s
  | _ => True

/-! ## Rows after a write -/

theorem mem_upsert_device {device d : Device} {t : Table Device}
    (h : d ∈ DeviceRepository.upsert device t) :
    d ∈ t ∨ d.userId = ((DeviceRepository.get device.id t).map Device.userId).getD device.userId := by
  unfold DeviceRepository.upsert at h
  split at h
  · next t' hinsert =>
    rcases (mem_insert? hinsert).mp h with hd | rfl
    · exact .inl hd
    · have hnone : DeviceRepository.get d.id t = none := get_eq_none.mpr fun r hr =>
        decide_eq_false fun hid => not_conflict_of_insert? hinsert hr hid
      exact .inr (by simp [hnone])
  · rcases mem_update_cases _ h with ⟨r, hr, hid, rfl⟩ | ⟨hd, -⟩
    · have hget : DeviceRepository.get device.id t = some r := get_of_mem hr hid fun r' hid' =>
        (of_decide_eq_true hid').trans (of_decide_eq_true hid).symm
      exact .inr (by simp [hget, DeviceRepository.upsertValues])
    · exact .inl hd

theorem mem_upsert_endpoint {endpoint e : PushEndpoint} {t endpoints : Table PushEndpoint}
    (h : Automations.EndpointRepository.upsert endpoint t = some endpoints) (he : e ∈ endpoints) :
    e ∈ t ∨ e.userId = endpoint.userId := by
  unfold Automations.EndpointRepository.upsert at h
  split at h
  · obtain rfl := Option.some.inj h
    rcases mem_update_cases _ he with ⟨r, hr, hp, rfl⟩ | ⟨he, -⟩
    · exact .inr (of_decide_eq_true hp).1
    · exact .inl he
  · rcases (mem_insert? h).mp he with he | rfl
    · exact .inl he
    · exact .inr rfl

/-- An invalidated endpoint is not eligible, and an endpoint that is eligible was not invalidated. -/
theorem mem_invalidate {p : PushEndpoint → Bool} {now : Timestamp} {seen t : Table PushEndpoint}
    {e : PushEndpoint} (he : e ∈ invalidate p now seen t) (heligible : eligible userId e = true) :
    e ∈ t ∧ Table.foundIn PushEndpoint.id seen p e = false := by
  rcases mem_update_cases _ he with ⟨r, hr, -, rfl⟩ | ⟨he, hp⟩
  · simp [eligible] at heligible
  · exact ⟨he, hp⟩

/-! ## One transaction -/

/-- What stays of what is attached, or becomes less. -/
structure NothingNew (userId : UUID) (s s' : State) : Prop where
  sessions : ∀ r ∈ s'.businessSessions, r.userId = userId → r.revokedAt = none →
    r ∈ s.businessSessions
  devices : ∀ d ∈ s'.devices, d.userId = userId → d.active = true → d ∈ s.devices
  endpoints : ∀ e ∈ s'.endpoints, eligible userId e = true → e ∈ s.endpoints

theorem Detached.later (h : Detached userId s) (hnothing : NothingNew userId s s') :
    Detached userId s' where
  sessions r hr huser hopen := h.sessions r (hnothing.sessions r hr huser hopen) huser hopen
  devices d hd huser := by
    by_contra hactive
    rw [Bool.not_eq_false] at hactive
    rw [h.devices d (hnothing.devices d hd huser hactive) huser] at hactive
    cases hactive
  endpoints e he := by
    by_contra heligible
    rw [Bool.not_eq_false] at heligible
    rw [h.endpoints e (hnothing.endpoints e he heligible)] at heligible
    cases heligible

/-- A session of another user, or one that was there and open, in a table that only revokes. -/
theorem open_of_revoke {session r : BusinessSession} {now : Timestamp} {t : Table BusinessSession}
    (hr : r ∈ SessionRepository.update (session.revoke now) t) (hopen : r.revokedAt = none) :
    r ∈ t := by
  rcases mem_update_cases _ hr with ⟨r₀, -, -, rfl⟩ | ⟨hr, -⟩
  · cases hopen
  · exact hr

/-- What a deletion leaves was there. -/
theorem Deletes.nothingNew {deleted : UUID} {later : Timestamp} (h : Deletes deleted later view s s') :
    NothingNew userId s s' := by
  cases h with
  | passed => exact ⟨fun _ hr _ _ => hr, fun _ hd _ _ => hd, fun _ he _ => he⟩
  | deleted hread hstatus husers hdevices hsessions hattached =>
    refine ⟨fun r hr _ hopen => ?_, fun d hd _ hactive => ?_, fun e he helig => ?_⟩
    · rw [hsessions] at hr
      rcases mem_update_cases _ hr with ⟨r₀, -, -, rfl⟩ | ⟨hr, -⟩
      · cases hopen
      · exact hr
    · rw [hdevices] at hd
      rcases mem_update_cases _ hd with ⟨d₀, -, -, rfl⟩ | ⟨hd, -⟩
      · cases hactive
      · exact hd
    · rw [hattached] at he
      exact (mem_invalidate he helig).1

/-- A transaction that attaches nothing to the user: a deletion, or any other one that respects that its
deletion has committed. -/
theorem Effect.nothingNew (hacc : Accounts s) (hdone : Deleted userId s)
    (htime : op.InTime hash view s) (h : Effect hash sessionTtl view s op s' reply) :
    NothingNew userId s s' := by
  have hsame : ∀ {s' : State}, s'.businessSessions = s.businessSessions → s'.devices = s.devices →
      s'.endpoints = s.endpoints → NothingNew userId s s' := by
    intro s' hsessions hdevices hendpoints
    exact ⟨fun r hr _ _ => hsessions ▸ hr, fun d hd _ _ => hdevices ▸ hd,
      fun e he _ => hendpoints ▸ he⟩
  cases h with
  | nothing => exact hsame rfl rfl rfl
  | @login c accessToken fresh loginId users devices businessSessions result huser hdevice hsession =>
    have howner : c.owner (fresh 0) (view 0) = loginId ∧
        (UserRepository.getByExternalSubject c.externalSubject (view 0).users).all
          (·.status = .active) = true := by
      cases huser with
      | created hread => simp [HuaweiLogin.owner, hread]
      | found hread hactive => simp [HuaweiLogin.owner, hread, hactive]
    have hother : loginId ≠ userId := by
      rintro rfl
      cases huser with
      | created hread hinsert =>
        obtain ⟨j, hj, hdel, huser, -⟩ := hdone
        obtain ⟨u, hu, hid⟩ := hacc.user j hj hdel
        exact not_conflict_of_insert? hinsert hu (.inl (hid.trans huser))
      | found hread hactive => exact htime.1 _ hread hactive hdone
    refine ⟨fun r hr huser _ => ?_, fun d hd huser _ => ?_, fun _ he _ => he⟩
    · rcases (mem_insert? hsession).mp hr with hr | rfl
      · exact hr
      · exact absurd huser hother
    · cases hdevice with
      | nothing => exact hd
      | registers hdevice htimezone hregisters =>
        obtain ⟨hid, huserId, hfree⟩ := hregisters
        rcases mem_upsert_device hd with hd | hdeviceOwner
        · exact hd
        · rw [hid, huserId] at hdeviceOwner
          have hnot := htime.2 _ hdevice (by simp [htimezone]) howner.2 (by rwa [howner.1])
          rw [howner.1] at hnot
          exact absurd hdone (huser ▸ hdeviceOwner ▸ hnot)
  | refresh hread hopen hactive hsession =>
    refine ⟨fun r hr huser hopen' => ?_, fun _ hd _ _ => hd, fun _ he _ => he⟩
    rcases (mem_insert? hsession).mp hr with hr | rfl
    · exact open_of_revoke hr hopen'
    · have hnot := htime _ hread hopen hactive
      exact absurd hdone (huser ▸ hnot)
  | logout hread hendpoints =>
    refine ⟨fun r hr _ hopen => open_of_revoke hr hopen, fun _ hd _ _ => hd, fun e he helig => ?_⟩
    rcases hendpoints with rfl | ⟨p, rfl⟩
    · exact he
    · exact (mem_invalidate he helig).1
  | registers htimezone hactive hdevice =>
    refine ⟨fun _ hr _ _ => hr, fun d hd huser _ => ?_, fun _ he _ => he⟩
    obtain ⟨hid, huserId, hfree⟩ := hdevice
    rcases mem_upsert_device hd with hd | howner
    · exact hd
    · rw [hid, huserId] at howner
      exact absurd hdone (huser ▸ howner ▸ htime htimezone hactive hfree)
  | upserts htoken hdevice hendpoint =>
    refine ⟨fun _ hr _ _ => hr, fun _ hd _ _ => hd, fun e he helig => ?_⟩
    rcases mem_upsert_endpoint hendpoint he with he | howner
    · exact he
    · have huser : e.userId = userId := (of_decide_eq_true helig).1
      exact absurd hdone (huser ▸ howner ▸ htime htoken hdevice)
  | detaches =>
    exact ⟨fun _ hr _ _ => hr, fun _ hd _ _ => hd, fun e he helig => (mem_invalidate he helig).1⟩
  | requests => exact hsame rfl rfl rfl
  | deletes hclaimed hready hdeletes hjobs =>
    have hnothing : NothingNew userId s _ := hdeletes.nothingNew
    exact ⟨hnothing.sessions, hnothing.devices, hnothing.endpoints⟩
  | claims => exact hsame rfl rfl rfl
  | ensures => exact hsame rfl rfl rfl
  | other hforeign =>
    exact hsame hforeign.businessSessions hforeign.devices hforeign.endpoints

/-- A deletion that finds all that is attached to the user leaves nothing. -/
theorem Deletes.detached {now later : Timestamp} {reached : UUID → Bool} (hacc : Accounts s)
    (hviews : ∀ n, Accounts (view n) ∧ AccountsLater (view n) s)
    (hready : ∃ j₀ ∈ s.store.durableJobs, SweepMove now reached j₀ j ∧
      claimReadyWhere .accountDeletion now j = true)
    (hfinds : FindsAll j.userId view s) (h : Deletes j.userId later view s s') :
    Detached j.userId s' := by
  have hnothing : NothingNew j.userId s s' := h.nothingNew
  obtain ⟨hj, hdel, hopen⟩ := hacc.ready hready
  cases h with
  | passed hdeleted =>
    obtain ⟨user, hread⟩ := Option.isSome_iff_exists.mp hfinds.user
    exact absurd (hdeleted user hread)
      (hacc.not_deleted (hviews 0) ⟨j, hj, hdel, rfl, hopen⟩ hread)
  | deleted hread hstatus husers hdevices hsessions hattached =>
    refine ⟨fun r hr huser hopen => ?_, fun d hd huser => ?_, fun e he => ?_⟩
    · obtain ⟨r', hr', hid, huser', hopen'⟩ :=
        hfinds.sessions r (hnothing.sessions r hr huser hopen) huser hopen
      rw [hsessions] at hr
      rcases mem_update_cases _ hr with ⟨r₀, -, -, rfl⟩ | ⟨-, hmissed⟩
      · cases hopen
      · rw [foundIn_iff.mpr ⟨by simp [huser, hopen], r', hr', hid, by simp [huser', hopen']⟩]
          at hmissed
        cases hmissed
    · by_contra hactive
      rw [Bool.not_eq_false] at hactive
      obtain ⟨d', hd', hid, huser', hactive'⟩ :=
        hfinds.devices d (hnothing.devices d hd huser hactive) huser hactive
      rw [hdevices] at hd
      rcases mem_update_cases _ hd with ⟨d₀, -, -, rfl⟩ | ⟨-, hmissed⟩
      · cases hactive
      · rw [foundIn_iff.mpr ⟨by simp [huser, hactive], d', hd', hid, by simp [huser', hactive']⟩]
          at hmissed
        cases hmissed
    · by_contra helig
      rw [Bool.not_eq_false] at helig
      obtain ⟨e', he', hid, huser'⟩ := hfinds.endpoints e (hnothing.endpoints e he helig) helig
      rw [hattached] at he
      have hmissed := (mem_invalidate he helig).2
      have huser : e.userId = j.userId := (of_decide_eq_true helig).1
      rw [foundIn_iff.mpr ⟨by simp [huser], e', he', hid, by simp [huser']⟩] at hmissed
      cases hmissed

/-! ## Every history -/

/-- Nothing is attached to a user whose deletion has committed. -/
def AllDetached (s : State) : Prop := ∀ userId, Deleted userId s → Detached userId s

theorem Effect.allDetached (hacc : Accounts s) (hall : AllDetached s)
    (hviews : ∀ n, Accounts (view n) ∧ AccountsLater (view n) s) (htime : op.InTime hash view s)
    (h : Effect hash sessionTtl view s op s' reply) : AllDetached s' := by
  intro userId hdone
  by_cases hbefore : Deleted userId s
  · exact (hall userId hbefore).later (h.nothingNew hacc hbefore htime)
  have hsame : ∀ {s' : State}, (∀ j, IsDeletion j → j ∈ s'.store.durableJobs → j.status = .completed →
      j ∈ s.store.durableJobs) → ¬Deleted userId s' := by
    rintro s' hjobs ⟨j, hj, hdel, huser, hstatus⟩
    exact hbefore ⟨j, hjobs j hdel hj hstatus, hdel, huser, hstatus⟩
  cases h with
  | nothing => exact absurd hdone hbefore
  | login => exact absurd hdone hbefore
  | refresh => exact absurd hdone hbefore
  | logout => exact absurd hdone hbefore
  | registers => exact absurd hdone hbefore
  | upserts => exact absurd hdone hbefore
  | detaches => exact absurd hdone hbefore
  | ensures => exact absurd hdone hbefore
  | requests hread hstatus huser hjob =>
    cases hjob with
    | there => exact absurd hdone hbefore
    | added hinsert =>
      refine absurd hdone (hsame fun j _ hj hstatus => ?_)
      rcases (mem_insert? hinsert).mp hj with hj | rfl
      · exact hj
      · cases hstatus
  | deletes hclaimed hready hdeletes hjobs =>
    obtain ⟨hj₀, hdel₀, -⟩ := hacc.ready hready
    obtain ⟨job, hjob, hclaimedUser⟩ := hclaimed
    have hdetached := hdeletes.detached hacc hviews hready (hclaimedUser ▸ htime job hjob)
    -- the one deletion that is settled now is the one that was claimed
    obtain ⟨j', hj', hdel, huser, hstatus⟩ := hdone
    obtain ⟨j, hj, hsettles⟩ := (hjobs.origin j' hj').resolve_right fun h => h
    have hsame' : SameJob j j' := by
      cases hsettles with
      | swept _ hmove => exact hmove.same
      | settled _ _ hsame => exact hsame
    have hdel' := hdel.same hsame'.symm
    rcases hsettles.deletion (hacc.not_claimed hj hdel') with ⟨-, rfl⟩ | ⟨hid, -⟩
    · exact absurd ⟨j', hj, hdel, huser, hstatus⟩ hbefore
    · obtain rfl := job_ext hj hj₀ hid
      obtain rfl := hsame'.userId.symm.trans huser
      exact ⟨hdetached.sessions, hdetached.devices, hdetached.endpoints⟩
  | claims hjobs =>
    exact absurd hdone (hsame fun j hdel hj _ => (mem_of_claims hacc hjobs hdel).mp hj)
  | other hforeign => exact absurd hdone (hsame fun j hdel hj _ => (hforeign.jobs j hdel).mp hj)

theorem detached_stable : Program.Stable (system hash sessionTtl)
    (fun op view s => op.InTime hash view s) (fun s => Accounts s ∧ AllDetached s) AccountsLater := by
  refine (accounts_stable _).strengthen AllDetached ?_ ?_
  · rintro s rfl userId ⟨j, hj, -⟩
    exact absurd hj not_mem_empty
  · intro op view s hacc hall hviews htime
    exact (commit_effect _ _ _ op).allDetached hacc hall (fun n => ⟨(hviews n).1, (hviews n).2.2⟩) htime

/-- In a history in which no call attaches anything to a user whose deletion has committed since it read,
and every deletion finds what is attached, a deleted user has no open session, no active device and no
eligible push endpoint. -/
theorem detached_stays
    (hr : (system hash sessionTtl).ReachableIf (fun op view s => op.InTime hash view s) h)
    (hs : s ∈ h.states) (hdone : Deleted userId s) :
    (∀ r ∈ s.businessSessions, r.userId = userId → r.revokedAt ≠ none) ∧
      (∀ d ∈ s.devices, d.userId = userId → d.active = false) ∧
      listEligible userId s.endpoints = [] := by
  have hdetached := (detached_stable.inv_mem hr hs).2 userId hdone
  exact ⟨hdetached.sessions, hdetached.devices, select_eq_nil hdetached.endpoints⟩

/-- A login of device 7, its push token, and the deletion of the account. -/
def detachedAccount : List Op :=
  [.login { externalSubject := "subject", deviceId := some 7, timezoneName := some "Asia/Shanghai" }
      "token" (stampsFrom 10 0),
    .upsertPushToken 10 7 "push" "HUAWEI" ⟨15, 1⟩, .requestDeletion 10 1 ⟨20, 1⟩,
    .runDeletion 5 60 2 3 (fun _ => true) (fun _ => false)]

/-- A deletion that reads the state that it commits on finds all that is there. -/
theorem findsAll_same (huser : (UserRepository.get userId s.users).isSome) :
    FindsAll userId (fun _ => s) s where
  user := huser
  endpoints e he helig := ⟨e, he, rfl, (of_decide_eq_true helig).1⟩
  devices d hd huser hactive := ⟨d, hd, rfl, huser, hactive⟩
  sessions r hr huser hopen := ⟨r, hr, rfl, huser, hopen⟩

theorem not_deleted_of_no_jobs (hjobs : s.store.durableJobs.rows = []) : ¬Deleted userId s := by
  rintro ⟨j, hj, -⟩
  have hrow : j ∈ s.store.durableJobs.rows := hj
  rw [hjobs] at hrow
  exact absurd hrow List.not_mem_nil

theorem detachedAccount_inTime : (system id 100).SerialMeets (fun op view s => op.InTime id view s)
    ⟨{}, [], []⟩ detachedAccount := by
  refine ⟨⟨fun _ _ _ => not_deleted_of_no_jobs rfl, fun _ _ _ _ _ => not_deleted_of_no_jobs rfl⟩,
    fun _ _ => not_deleted_of_no_jobs (by decide +kernel), trivial, fun job hjob => ?_, trivial⟩
  have hall : ((claimReadyJobs .accountDeletion (workerOwner 5) 2 62 1 (fun _ => true)
      (fun _ => false) ((system id 100).serial {}
        (detachedAccount.take 3)).cur.store.durableJobs).2.all fun job =>
          (UserRepository.get job.userId ((system id 100).serial {}
            (detachedAccount.take 3)).cur.users).isSome) = true := by
    decide +kernel
  exact findsAll_same (List.all_eq_true.mp hall job hjob)

/-- Nothing is left of what the user had. -/
theorem detached_stays_detachedAccount :
    listEligible 10 ((system id 100).serial {} detachedAccount).cur.endpoints = [] := by
  have hdone : ∃ j ∈ ((system id 100).serial {} detachedAccount).cur.store.durableJobs.rows,
      (j.kind = .accountDeletion ∨ j.dedupeKey = deletionKey j.userId) ∧ j.userId = 10 ∧
        j.status = .completed := by
    decide +kernel
  exact (detached_stays ((system id 100).serial_reachableIf rfl _ detachedAccount_inTime)
    (.head _) hdone).2.2

/-- A second login of the device read the user before the account was deleted, and commits after it. -/
def loggedInLate : History State Op Reply :=
  (system id 100).extend ((system id 100).serial {} detachedAccount)
    (.login { externalSubject := "subject", deviceId := some 7, timezoneName := some "Asia/Shanghai" }
      "another-token" (stampsFrom 30 4))
    fun _ => ((system id 100).serial {} detachedAccount).stateAt ⟨2, by decide⟩

/-- A user whose deletion has committed has an open session and an active device. -/
theorem attached_again :
    ∃ h : History State Op Reply, (system id 100).Reachable h ∧
      Deleted 10 h.cur ∧ (∃ r ∈ h.cur.businessSessions, r.userId = 10 ∧ r.revokedAt = none) ∧
      ∃ d ∈ h.cur.devices, d.userId = 10 ∧ d.active = true := by
  have hreach : (system id 100).Reachable loggedInLate :=
    ((system id 100).serial_reachable rfl _).commit _ _ (fun _ => History.stateAt_mem _ _) trivial
  have hdone : ∃ j ∈ loggedInLate.cur.store.durableJobs.rows, (j.kind = .accountDeletion ∨
      j.dedupeKey = deletionKey j.userId) ∧ j.userId = 10 ∧ j.status = .completed := by
    decide +kernel
  have hsession : ∃ r ∈ loggedInLate.cur.businessSessions.rows,
      r.userId = 10 ∧ r.revokedAt = none := by
    decide +kernel
  have hdevice : ∃ d ∈ loggedInLate.cur.devices.rows, d.userId = 10 ∧ d.active = true := by
    decide +kernel
  exact ⟨loggedInLate, hreach, hdone, hsession, hdevice⟩

end Identity
