import Laoshiren.Automations.Proofs.ExecutionProofs
import Laoshiren.Identity.Effects

/-!
# The transactions have the effects

Each function of the service is inverted once, and `commit_effect` collects what a transaction does.
-/

namespace Identity

open Runtime Raise Table DurableJobRepository

variable {hash : String → String} {sessionTtl : ℤ} {view : ℕ → State} {s s' seen : State} {op : Op}
  {userId deviceId : UUID} {now : Timestamp} {stamp : Stamp} {fresh : ℕ → Stamp}

/-! ## Registrations and logins -/

theorem registration_id {timezoneName : String} {platform : DevicePlatform} {t : Table Device} :
    (registration userId deviceId timezoneName platform now (DeviceRepository.get deviceId t)).id =
      deviceId := by
  unfold registration
  cases h : DeviceRepository.get deviceId t with
  | none => rfl
  | some device => exact of_decide_eq_true (get_eq_some h).2

theorem registerDeviceLocked_ok {timezoneName : String} {platform : DevicePlatform}
    {result : DeviceDTO}
    (h : registerDeviceLocked userId deviceId timezoneName platform now seen s = .ok (s', result)) :
    ∃ devices, Registers userId deviceId seen s.devices devices ∧ s' = { s with devices } := by
  simp only [registerDeviceLocked, bind_eq_ok, ensure_eq_ok, pure_eq_ok, Prod.mk.injEq] at h
  obtain ⟨-, hfree, rfl, -⟩ := h
  exact ⟨_, .intro registration_id rfl hfree, rfl⟩

theorem loginUser_ok {c : HuaweiLogin}
    (h : loginUser c.externalSubject stamp seen s = .ok (s', userId)) :
    ∃ users, LoginUser c stamp seen s.users users userId ∧ s' = { s with users } := by
  unfold loginUser at h
  split at h
  · next hread =>
    simp only [bind_eq_ok, orRaise_eq_ok, pure_eq_ok, Prod.mk.injEq] at h
    obtain ⟨users, hinsert, rfl, rfl⟩ := h
    exact ⟨users, .created hread hinsert, rfl⟩
  · next user hread =>
    simp only [bind_eq_ok, ensure_eq_ok, pure_eq_ok, Prod.mk.injEq] at h
    obtain ⟨-, hdeleted, -, hdeleting, rfl, rfl⟩ := h
    refine ⟨s.users, .found hread ?_, rfl⟩
    cases hstatus : user.status with
    | active => rfl
    | deleting => exact absurd hstatus hdeleting
    | deleted => exact absurd hstatus hdeleted

theorem loginDevice_ok {c : HuaweiLogin} (h : loginDevice c userId now seen s = .ok s') :
    ∃ devices, LoginDevice c userId seen s.devices devices ∧ s' = { s with devices } := by
  unfold loginDevice at h
  split at h
  · next deviceId timezoneName hdevice htimezone =>
    simp only [bind_eq_ok, pure_eq_ok, Prod.exists] at h
    obtain ⟨_, _, hlocked, rfl⟩ := h
    obtain ⟨devices, hregisters, rfl⟩ := registerDeviceLocked_ok hlocked
    exact ⟨devices, .registers hdevice htimezone hregisters, rfl⟩
  · simp only [pure_eq_ok] at h
    exact ⟨s.devices, .nothing, h.symm⟩

/-! ## Deletions -/

theorem requestAccountDeletion_ok (h : requestAccountDeletion userId now stamp view s = .ok s') :
    s' = s ∨ ∃ user users durableJobs, UserRepository.get userId (view 0).users = some user ∧
      user.status ≠ .deleted ∧
      UserRepository.update { user with status := .deleting, updatedAt := now } s.users =
        some users ∧
      RequestsJob userId stamp (view 1) s durableJobs ∧
      s' = { s with users, store := { s.store with durableJobs } } := by
  simp only [requestAccountDeletion, bind_eq_ok, orRaise_eq_ok] at h
  obtain ⟨user, hread, h⟩ := h
  by_cases hstatus : user.status = .deleted
  · rw [if_pos hstatus] at h
    exact .inl (pure_eq_ok.mp h).symm
  · rw [if_neg hstatus, User.beginDeletion, if_neg hstatus] at h
    simp only [bind_eq_ok, orRaise_eq_ok] at h
    obtain ⟨users, huser, h⟩ := h
    refine .inr ⟨user, users, ?_⟩
    split at h
    · next job hjob =>
      exact ⟨_, hread, hstatus, huser, .there hjob, (pure_eq_ok.mp h).symm⟩
    · obtain ⟨store, hstore, h⟩ := bind_eq_ok.mp h
      obtain ⟨durableJobs, hinsert, rfl⟩ := Store.addJob_ok hstore
      exact ⟨durableJobs, hread, hstatus, huser, .added hinsert, (pure_eq_ok.mp h).symm⟩

theorem applyAccountDeletion_ok (h : applyAccountDeletion userId now view s = .ok s') :
    Deletes userId now view s s' := by
  unfold applyAccountDeletion at h
  split at h
  · next hread =>
    obtain rfl := pure_eq_ok.mp h
    exact .passed fun user huser => by simp [hread] at huser
  · next user hread =>
    by_cases hstatus : user.status = .deleted
    · rw [if_pos hstatus] at h
      obtain rfl := pure_eq_ok.mp h
      refine .passed fun user' huser => ?_
      obtain rfl := Option.some.inj (hread.symm.trans huser)
      exact hstatus
    · rw [if_neg hstatus] at h
      simp only [bind_eq_ok, orRaise_eq_ok, pure_eq_ok] at h
      obtain ⟨users, huser, rfl⟩ := h
      refine .deleted hread hstatus ⟨_, ?_, rfl, ?_, huser⟩ rfl rfl rfl
      all_goals
        simp only [User.markDeleted, User.beginDeletion, if_neg hstatus]
        split <;> rfl

/-- A row that a claim swept or handed out, where the job that is settled was handed out alone: that job
ends as it is settled, and the others are swept at most. -/
theorem jobSettles_of_claimed {t claimed durableJobs : Table DurableJob} {job settled : DurableJob}
    {reached : UUID → Bool} (hreplaces : Replaces job settled claimed durableJobs)
    (hmoves : t.Moves (fun j j₁ => SweepMove now reached j j₁ ∨
      j₁.id = j.id ∧ SameJob j j₁ ∧ j₁ = job) claimed)
    (hid : settled.id = job.id) (hsame : SameJob job settled) (hstatus : settled.status = .completed) :
    t.Grows (JobSettles job.id now reached) (fun _ => False) durableJobs := by
  have hkeeps : ∀ j j₁, (SweepMove now reached j j₁ ∨ j₁.id = j.id ∧ SameJob j j₁ ∧ j₁ = job) →
      j₁.id = j.id ∧ SameJob j j₁ := by
    rintro j j₁ (hmove | ⟨hid, hsame, -⟩)
    · exact ⟨by cases hmove <;> rfl, hmove.same⟩
    · exact ⟨hid, hsame⟩
  have hstep : ∀ j, ∀ j₁ ∈ claimed, (SweepMove now reached j j₁ ∨
      j₁.id = j.id ∧ SameJob j j₁ ∧ j₁ = job) → j₁ ≠ job → JobSettles job.id now reached j j₁ := by
    intro j j₁ hj₁ hmove hne
    refine .swept (fun hjob => hne ?_) (hmove.resolve_right fun h => hne h.2.2)
    exact job_ext hj₁ hreplaces.1 ((hkeeps j j₁ hmove).1.trans hjob)
  have hlast : ∀ j, (SweepMove now reached j job ∨ job.id = j.id ∧ SameJob j job ∧ job = job) →
      JobSettles job.id now reached j settled := by
    intro j hmove
    obtain ⟨hid₁, hsame₁⟩ := hkeeps j job hmove
    exact .settled hid₁.symm (hid.trans hid₁) (hsame₁.trans hsame) hstatus
  constructor
  · intro j hj
    obtain ⟨j₁, hj₁, hmove⟩ := hmoves.exists_mem hj
    by_cases hjob : j₁ = job
    · subst hjob
      exact ⟨settled, hreplaces.mem_new, hlast j hmove⟩
    · exact ⟨j₁, hreplaces.mem_of_ne hj₁ hjob, hstep j j₁ hj₁ hmove hjob⟩
  · intro j' hj'
    refine .inl ?_
    rcases hreplaces.mem_cases hj' with rfl | ⟨hj', hne⟩
    · obtain ⟨j, hj, hmove⟩ := hmoves.mem hreplaces.1
      exact ⟨j, hj, hlast j hmove⟩
    · obtain ⟨j, hj, hmove⟩ := hmoves.mem hj'
      exact ⟨j, hj, hstep j j' hj' hmove hne⟩

/-- A deletion does not look at the jobs, and leaves them alone. -/
theorem Deletes.sameJobs {store : Store}
    (h : Deletes userId now view { s with store } s') :
    s'.store = store ∧ Deletes userId now view s { s' with store := s.store } := by
  cases h with
  | passed hread => exact ⟨rfl, .passed hread⟩
  | deleted hread hstatus husers hdevices hsessions hattached =>
    refine ⟨congrArg (·.store) hattached, .deleted hread hstatus husers hdevices hsessions ?_⟩
    exact congrArg (fun a : Automations.State => { a with store := s.store }) hattached

theorem runOnce_ok {worker : UUID} {lease : ℤ} {later : Timestamp} {reached locked : UUID → Bool}
    {any : Bool} (h : runOnce worker lease now later reached locked view s = .ok (s', any)) :
    Effect hash sessionTtl view s (.runDeletion worker lease now later reached locked) s'
      (.processed any) := by
  unfold runOnce at h
  dsimp only at h
  split at h
  · next hjobs =>
    obtain ⟨rfl, rfl⟩ := Prod.mk.inj (pure_eq_ok.mp h)
    have hmoves : s.store.durableJobs.Moves (fun j j' => SweepMove now reached j j' ∨
        j.kind ≠ .accountDeletion ∧
          ClaimMove .accountDeletion (workerOwner worker) now (now + lease) reached j j')
        (claimReadyJobs .accountDeletion (workerOwner worker) now (now + lease) 1 reached locked
          s.store.durableJobs).1 := by
      refine (claimed_or_swept ..).imp fun j j' hmove => ?_
      rcases hmove with hmove | ⟨-, -, hin⟩
      · exact .inl hmove
      · simp [hjobs] at hin
    exact .claims hmoves (by simp)
  · next job rest hjobs =>
    obtain ⟨applied, happlied, h⟩ := bind_eq_ok.mp h
    have hdeletes := applyAccountDeletion_ok happlied
    split at h
    · next settled hsettled =>
      obtain ⟨rfl, rfl⟩ := Prod.mk.inj (pure_eq_ok.mp h)
      obtain ⟨hstore, hdeletes⟩ := hdeletes.sameJobs
      obtain ⟨hmem, -, j, hj, hready, rfl⟩ := mem_of_claimed (hjobs ▸ List.mem_cons_self)
      obtain ⟨j₀, hj₀, hmove⟩ := (sweepMove_requeueExpired now reached).mem hj
      obtain ⟨job, durableJobs, hwhere, hreplaces, rfl⟩ := Automations.settleClaim_eq_some hsettled
      rw [hstore] at hreplaces
      obtain rfl := job_ext hreplaces.1 hmem (heldBy_iff.mp (settleWhere_iff.mp hwhere).1).1
      have hlength : (claimReadyJobs .accountDeletion (workerOwner worker) now (now + lease) 1
          reached locked s.store.durableJobs).2.length ≤ 1 := claimed_length
      rw [hjobs] at hlength
      obtain rfl := List.eq_nil_of_length_eq_zero (by simpa using hlength)
      have hmoves := claimed_or_swept .accountDeletion (workerOwner worker) now (now + lease) 1
        reached locked (t := s.store.durableJobs)
      simp only [hjobs, List.mem_singleton] at hmoves
      have hgrows := jobSettles_of_claimed hreplaces hmoves rfl ⟨rfl, rfl, rfl, rfl⟩ rfl
      have heffect : Effect hash sessionTtl view s
          (.runDeletion worker lease now later reached locked) _ _ := .deletes (j := j)
        ⟨claimReadyValues (workerOwner worker) now (now + lease) j, hjobs ▸ List.mem_cons_self, rfl⟩
        ⟨j₀, hj₀, hmove, hready⟩ hdeletes hgrows
      simpa only [hstore] using heffect
    · obtain ⟨rfl, rfl⟩ := Prod.mk.inj (pure_eq_ok.mp h)
      exact .nothing (by simp)

variable (hash sessionTtl view) in
theorem commit_effect (op : Op) :
    Effect hash sessionTtl view s op (commit hash sessionTtl op view s).1
      (commit hash sessionTtl op view s).2 := by
  cases op with
  | login c accessToken fresh =>
    simp only [commit, answered]
    split
    · next s' result h =>
      simp only [huaweiLogin, openSession, bind_eq_ok, orRaise_eq_ok, pure_eq_ok, Prod.exists,
        Prod.mk.injEq] at h
      obtain ⟨s₁, userId, hfirst, s₂, hsecond, businessSessions, hsession, rfl, rfl⟩ := h
      obtain ⟨users, huser, rfl⟩ := loginUser_ok hfirst
      obtain ⟨devices, hdevice, rfl⟩ := loginDevice_ok hsecond
      exact .login huser hdevice hsession
    · exact .nothing (by simp)
  | refresh accessToken newAccessToken fresh =>
    simp only [commit, answered]
    split
    · next s' result h =>
      simp only [refreshSession, openSession, bind_eq_ok, orRaise_eq_ok, ensure_eq_ok, pure_eq_ok,
        Prod.mk.injEq] at h
      obtain ⟨session, hread, -, hopen, -, hactive, businessSessions, hsession, rfl, rfl⟩ := h
      exact .refresh hread hopen hactive hsession
    · exact .nothing (by simp)
  | logout userId accessToken now =>
    simp only [commit]
    cases h : logout hash userId accessToken now view s with
    | error error => exact .nothing (by simp [answered, Except.map])
    | ok s' =>
      simp only [logout, bind_eq_ok, orRaise_eq_ok, ensure_eq_ok, pure_eq_ok] at h
      obtain ⟨session, hread, -, -, rfl⟩ := h
      refine .logout hread ?_
      cases session.deviceId with
      | none => exact .inl rfl
      | some deviceId => exact .inr ⟨_, rfl⟩
  | registerDevice userId deviceId timezoneName platform now =>
    simp only [commit, answered]
    split
    · next s' result h =>
      simp only [registerDevice, bind_eq_ok, ensure_eq_ok] at h
      obtain ⟨-, htimezone, -, hactive, h⟩ := h
      obtain ⟨devices, hregisters, rfl⟩ := registerDeviceLocked_ok h
      exact .registers htimezone hactive hregisters
    · exact .nothing (by simp)
  | upsertPushToken userId deviceId pushToken provider stamp =>
    simp only [commit]
    cases h : upsertPushToken userId deviceId pushToken provider stamp view s with
    | error error => exact .nothing (by simp [answered, Except.map])
    | ok s' =>
      simp only [upsertPushToken, bind_eq_ok, orRaise_eq_ok, ensure_eq_ok, pure_eq_ok] at h
      obtain ⟨-, htoken, -, hdevice, endpoints, hendpoint, rfl⟩ := h
      exact .upserts htoken hdevice hendpoint
  | deletePushToken userId deviceId now => exact .detaches
  | requestDeletion userId now stamp =>
    simp only [commit]
    cases h : requestAccountDeletion userId now stamp view s with
    | error error => exact .nothing (by simp [answered, Except.map])
    | ok s' =>
      rcases requestAccountDeletion_ok h with rfl | ⟨user, users, durableJobs, hread, hstatus, huser,
        hjob, rfl⟩
      · exact .nothing (by simp [answered, Except.map])
      · exact .requests hread hstatus huser hjob
  | runDeletion worker lease now later reached locked =>
    simp only [commit, answered]
    split
    · next s' any h => exact runOnce_ok h
    · exact .nothing (by simp)
  | ensureExists userId now => exact .ensures
  | claimOther kind owner now leaseUntil limit reached locked hkind =>
    have hmoves : s.store.durableJobs.Moves (fun j j' => SweepMove now reached j j' ∨
        j.kind ≠ .accountDeletion ∧ ClaimMove kind owner now leaseUntil reached j j')
        (claimReadyJobs kind owner now leaseUntil limit reached locked s.store.durableJobs).1 := ?_
    · exact .claims hmoves (by simp [commit])
    refine claimMove_claimReadyJobs.imp fun j j' hmove => ?_
    cases hmove with
    | swept hmove => exact .inl hmove
    | claimed hmove hp =>
      refine .inr ⟨?_, .claimed hmove hp⟩
      rw [← hmove.same.kind, (of_decide_eq_true hp).1]
      exact hkind
  | other change hforeign => exact .other (hforeign s)

end Identity
