import Laoshiren.Identity.Proofs.AccountProofs
import Laoshiren.Identity.Proofs.RefreshProofs

/-!
# Requests that are let in

A request is let in as the user of the session that has the hash of its token, where the session is
neither revoked nor over and the user is active. The session and the user are read by two
statements, between which anything may commit. A request comes in only as the user to whom a login
or a refresh answered with the token (`admitted_as_answered`); once the session was exchanged or
logged out, or the deletion of the account was requested, no request that reads later is let in
(`refused_for_good`).
-/

namespace Identity

open Runtime Raise Table

variable {hash : String → String} {sessionTtl : ℤ} {view : ℕ → State} {v s s' : State} {op : Op}
  {reply : Reply} {h : History State Op Reply} {userId : UUID} {now : Timestamp}
  {settings : AuthSettings} {authorization : Option String} {token tokenHash : String}

/-! ## What a request reads -/

theorem sessionUserId_eq_ok : sessionUserId tokenHash now view = .ok userId ↔
    ∃ session, SessionRepository.getByTokenHash tokenHash (view 0).businessSessions = some session ∧
      session.isActive now = true ∧ (view 1).hasActive session.userId = true ∧
      session.userId = userId := by
  unfold sessionUserId State.hasActive
  simp only [bind_eq_ok, orRaise_eq_ok, ensure_eq_ok, pure_eq_ok, exists_and_left, exists_const]

theorem getCurrentUserId_of_token (htoken : bearerToken authorization = .ok token)
    (hdev : ¬settings.IsDevToken token) :
    getCurrentUserId settings hash authorization now view =
      sessionUserId (hash token) now view := by
  unfold getCurrentUserId
  rw [bind_of_ok htoken, if_neg hdev]

/-- The user is there, and not active. -/
def Inactive (userId : UUID) (s : State) : Prop :=
  ∃ u ∈ s.users, u.id = userId ∧ u.status ≠ .active

theorem sessionUserId_of_revoked (h : RevokedFor tokenHash (view 0)) :
    sessionUserId tokenHash now view =
      .error (.httpException 401 "Invalid or expired session.") := by
  obtain ⟨r, hr, rfl, hrevoked⟩ := h
  have hread : SessionRepository.getByTokenHash r.tokenHash (view 0).businessSessions = some r := by
    exact get_of_mem hr (decide_eq_true rfl) fun r' htoken => .inr (of_decide_eq_true htoken)
  have hactive : ¬r.isActive now = true := fun hactive =>
    hrevoked (of_decide_eq_true hactive).1
  unfold sessionUserId
  rw [hread, orRaise, bind_of_ok rfl, bind_eq_error]
  exact .inl (ensure_eq_error.mpr ⟨rfl, hactive⟩)

theorem sessionUserId_of_inactive (h : Inactive userId (view 1)) :
    sessionUserId tokenHash now view ≠ .ok userId := by
  intro hok
  obtain ⟨session, -, -, hactive, rfl⟩ := sessionUserId_eq_ok.mp hok
  obtain ⟨u, hu, hid, hstatus⟩ := h
  have hread : UserRepository.get session.userId (view 1).users = some u := by
    refine get_of_mem hu (decide_eq_true hid) fun u' hid' => .inl ?_
    exact (of_decide_eq_true hid').trans hid.symm
  unfold State.hasActive at hactive
  rw [hread] at hactive
  exact hstatus (of_decide_eq_true hactive)

/-! ## What stays -/

/-- Sessions stay and are revoked at most, and a user who is not active never becomes active again.
-/
structure AdmissionLater (v s : State) : Prop where
  sessions : ∀ r ∈ v.businessSessions, ∃ r' ∈ s.businessSessions, SessionLater r r'
  inactive : ∀ userId, Inactive userId v → Inactive userId s

theorem RevokedFor.later (h : RevokedFor tokenHash v) (hlater : AdmissionLater v s) :
    RevokedFor tokenHash s := by
  obtain ⟨r, hr, htoken, hrevoked⟩ := h
  obtain ⟨r', hr', hstays⟩ := hlater.sessions r hr
  exact ⟨r', hr', hstays.tokenHash.trans htoken, hstays.revoked hrevoked⟩

theorem Effect.inactive (hacc : Accounts s) (h : Effect hash sessionTtl view s op s' reply)
    (hinactive : Inactive userId s) : Inactive userId s' := by
  obtain ⟨u, hu, hid, hstatus⟩ := hinactive
  obtain ⟨u', hu', hmove⟩ := (h.users hacc).kept u hu
  refine ⟨u', hu', hmove.id.trans hid, ?_⟩
  cases hmove with
  | kept => exact hstatus
  | requested hop hread hread' hid' hdeleting => simp [hdeleting]
  | deleted hop hid' hdeleted => simp [hdeleted]

variable (hash sessionTtl) in
theorem admission_stable (ok : Op → (ℕ → State) → State → Prop) :
    Program.Stable (system hash sessionTtl) ok Accounts
      fun v s => AccountsLater v s ∧ AdmissionLater v s where
  init :=
    have haccounts : Program.Stable (system hash sessionTtl) ok Accounts AccountsLater :=
      accounts_stable ok
    haccounts.init
  refl s := ⟨.refl s, fun r hr => ⟨r, hr, .refl r⟩, fun _ h => h⟩
  trans u v w h h' := by
    refine ⟨h.1.trans h'.1, fun r hr => ?_, fun userId hu => h'.2.inactive _ (h.2.inactive _ hu)⟩
    obtain ⟨r₁, hr₁, hstays⟩ := h.2.sessions r hr
    obtain ⟨r₂, hr₂, hstays'⟩ := h'.2.sessions r₁ hr₁
    exact ⟨r₂, hr₂, hstays.trans hstays'⟩
  step op view s hacc hviews hok := by
    have heffect := commit_effect hash sessionTtl view (s := s) op
    obtain ⟨hacc', hlater⟩ := (accounts_stable ok).step op view s hacc
      (fun n => ⟨(hviews n).1, (hviews n).2.1⟩) hok
    exact ⟨hacc', hlater, heffect.sessions.kept, fun _ => heffect.inactive hacc⟩

/-! ## Answers with a token -/

/-- The session of an answer. -/
structure Answered (hash : String → String) (result : LoginResultDTO) (r : BusinessSession) :
    Prop where
  tokenHash : r.tokenHash = hash result.accessToken
  userId : r.userId = result.userId
  expiresAt : r.expiresAt = result.expiresAt

theorem Answered.later {result : LoginResultDTO} {r r' : BusinessSession}
    (h : Answered hash result r) (hstays : SessionLater r r') : Answered hash result r' :=
  ⟨hstays.tokenHash.trans h.tokenHash, hstays.userId.trans h.userId,
    hstays.expiresAt.trans h.expiresAt⟩

theorem openSession_answered {deviceId : Option UUID} {accessToken : String} {stamp : Stamp}
    {result : LoginResultDTO}
    (h : openSession hash sessionTtl userId deviceId accessToken stamp s = .ok (s', result)) :
    ∃ r, s.businessSessions.insert? r = some s'.businessSessions ∧ Answered hash result r := by
  simp only [openSession, bind_eq_ok, orRaise_eq_ok, pure_eq_ok, Prod.mk.injEq] at h
  obtain ⟨businessSessions, hinsert, rfl, rfl⟩ := h
  exact ⟨_, hinsert, rfl, rfl, rfl⟩

/-- Only a login and a refresh answer with a token. -/
theorem Effect.answers {result : LoginResultDTO}
    (h : Effect hash sessionTtl view s op s' (.login result)) :
    (∃ c accessToken fresh, op = .login c accessToken fresh) ∨
      ∃ accessToken newAccessToken fresh, op = .refresh accessToken newAccessToken fresh := by
  cases h with
  | nothing hreply => exact absurd rfl (hreply result)
  | login => exact .inl ⟨_, _, _, rfl⟩
  | refresh => exact .inr ⟨_, _, _, rfl⟩
  | claims hjobs hreply => exact absurd rfl (hreply result)

/-- An answer with a token comes with one session more. -/
theorem commit_answers {result : LoginResultDTO}
    (h : (commit hash sessionTtl op view s).2 = .login result) :
    s.businessSessions.Grows SessionLater (Answered hash result)
      (commit hash sessionTtl op view s).1.businessSessions ∧
      ∃ r ∈ (commit hash sessionTtl op view s).1.businessSessions, Answered hash result r := by
  have heffect := commit_effect hash sessionTtl view (s := s) op
  rw [h] at heffect
  rcases heffect.answers with
    ⟨c, accessToken, fresh, rfl⟩ | ⟨accessToken, newAccessToken, fresh, rfl⟩
  · simp only [commit, answered] at h ⊢
    split at h
    · next s₃ result' hlogin =>
      obtain rfl := Reply.login.inj h
      simp only [huaweiLogin, bind_eq_ok, Prod.exists] at hlogin
      obtain ⟨s₁, userId, hfirst, s₂, hsecond, hopen⟩ := hlogin
      obtain ⟨users, -, rfl⟩ := loginUser_ok hfirst
      obtain ⟨devices, -, rfl⟩ := loginDevice_ok hsecond
      obtain ⟨r, hinsert, hanswered⟩ := openSession_answered hopen
      have hin := (mem_insert? hinsert).mpr (.inr rfl)
      exact ⟨.insert? SessionLater.refl hanswered hinsert, r, hin, hanswered⟩
    · cases h
  · simp only [commit, answered] at h ⊢
    split at h
    · next s₂ result' hrefresh =>
      obtain rfl := Reply.login.inj h
      simp only [refreshSession, bind_eq_ok, orRaise_eq_ok, ensure_eq_ok] at hrefresh
      obtain ⟨session, -, -, -, -, -, hopen⟩ := hrefresh
      obtain ⟨r, hinsert, hanswered⟩ := openSession_answered hopen
      have hrevoked := grows_revoke (n := fun _ => False) session (fresh 0).now s.businessSessions
      have hin := (mem_insert? hinsert).mpr (.inr rfl)
      refine ⟨?_, r, hin, hanswered⟩
      exact hrevoked.trans (.insert? SessionLater.refl hanswered hinsert)
        (fun _ _ _ => SessionLater.trans) (fun _ _ h _ => h.elim)
    · cases h

/-- Without such an answer there is no new session. -/
theorem Effect.silent (h : Effect hash sessionTtl view s op s' reply)
    (hreply : ∀ result, reply ≠ .login result) :
    s.businessSessions.Grows SessionLater (fun _ => False) s'.businessSessions := by
  have hkept : s.businessSessions.Grows SessionLater (fun _ => False) s.businessSessions :=
    .refl SessionLater.refl _
  cases h with
  | nothing => exact hkept
  | @login c accessToken fresh userId users devices businessSessions result =>
    exact absurd rfl (hreply result)
  | @refresh accessToken newAccessToken fresh session businessSessions result =>
    exact absurd rfl (hreply result)
  | logout => exact grows_revoke _ _ _
  | registers => exact hkept
  | upserts => exact hkept
  | detaches => exact hkept
  | requests => exact hkept
  | deletes hclaimed hready hdeletes hjobs =>
    cases hdeletes with
    | passed => exact hkept
    | deleted hread hstatus husers hdevices hsessions =>
      rw [hsessions]
      exact grows_revokeForUser _ _ _ _
  | claims => exact hkept
  | ensures => exact hkept
  | other hforeign =>
    rw [hforeign.businessSessions]
    exact hkept

/-- Sessions and answers belong together. -/
structure Tokens (hash : String → String) (replies : List (Op × Reply)) (s : State) : Prop where
  issued : ∀ r ∈ s.businessSessions, ∃ op result, (op, Reply.login result) ∈ replies ∧
    Answered hash result r
  kept : ∀ op result, (op, Reply.login result) ∈ replies → ∃ r ∈ s.businessSessions,
    Answered hash result r

theorem Tokens.step {replies : List (Op × Reply)} (h : Tokens hash replies s) :
    Tokens hash ((op, (commit hash sessionTtl op view s).2) :: replies)
      (commit hash sessionTtl op view s).1 := by
  by_cases hlogin : ∃ result, (commit hash sessionTtl op view s).2 = .login result
  · obtain ⟨result, hreply⟩ := hlogin
    obtain ⟨hgrows, r, hr, hanswered⟩ := commit_answers hreply
    constructor
    · intro r' hr'
      rcases hgrows.origin r' hr' with ⟨r₀, hr₀, hstays⟩ | hnew
      · obtain ⟨op', result', hin, hanswered'⟩ := h.issued r₀ hr₀
        exact ⟨op', result', List.mem_cons_of_mem _ hin, hanswered'.later hstays⟩
      · exact ⟨op, result, hreply ▸ List.mem_cons_self, hnew⟩
    · intro op' result' hin
      rcases List.mem_cons.mp hin with heq | hin
      · obtain rfl : result' = result :=
          Reply.login.inj ((Prod.mk.inj heq).2.trans hreply)
        exact ⟨r, hr, hanswered⟩
      · obtain ⟨r₀, hr₀, hanswered'⟩ := h.kept op' result' hin
        obtain ⟨r₁, hr₁, hstays⟩ := hgrows.kept r₀ hr₀
        exact ⟨r₁, hr₁, hanswered'.later hstays⟩
  · have hsilent := (commit_effect hash sessionTtl view (s := s) op).silent
      fun result hreply => hlogin ⟨result, hreply⟩
    constructor
    · intro r' hr'
      obtain ⟨r₀, hr₀, hstays⟩ := (hsilent.origin r' hr').resolve_right fun h => h
      obtain ⟨op', result', hin, hanswered⟩ := h.issued r₀ hr₀
      exact ⟨op', result', List.mem_cons_of_mem _ hin, hanswered.later hstays⟩
    · intro op' result' hin
      rcases List.mem_cons.mp hin with heq | hin
      · exact absurd ⟨result', (Prod.mk.inj heq).2.symm⟩ hlogin
      · obtain ⟨r₀, hr₀, hanswered⟩ := h.kept op' result' hin
        obtain ⟨r₁, hr₁, hstays⟩ := hsilent.kept r₀ hr₀
        exact ⟨r₁, hr₁, hanswered.later hstays⟩

/-- In every history, a request that is let in has a token that a login or a refresh answered with,
it comes in as the user of every such answer, and none of them is over. -/
theorem admitted_as_answered (hr : (system hash sessionTtl).Reachable h)
    (hviews : ∀ n, view n ∈ h.states) (htoken : bearerToken authorization = .ok token)
    (hdev : ¬settings.IsDevToken token)
    (hok : getCurrentUserId settings hash authorization now view = .ok userId) :
    (∃ op result, (op, Reply.login result) ∈ h.replies ∧ hash result.accessToken = hash token) ∧
    ∀ op result, (op, Reply.login result) ∈ h.replies → hash result.accessToken = hash token →
      result.userId = userId ∧ now < result.expiresAt := by
  rw [getCurrentUserId_of_token htoken hdev] at hok
  obtain ⟨session, hread, hactive, -, rfl⟩ := sessionUserId_eq_ok.mp hok
  obtain ⟨hmem, hhash⟩ := get_eq_some hread
  have hstable := admission_stable hash sessionTtl fun _ _ _ => True
  have hnone : Tokens hash [] ({} : State) :=
    ⟨fun _ hr => absurd hr not_mem_empty, fun _ _ hin => absurd hin List.not_mem_nil⟩
  have htokens : Tokens hash h.replies h.cur := by
    refine hstable.log_induction (Tokens hash) ?_ (fun _ _ _ _ _ _ _ h => h.step) hr
    rintro s rfl
    exact hnone
  -- the session that was read is there to the end of the history
  obtain ⟨r, hr', hstays⟩ := (hstable.rel_mem hr (hviews 0)).2.sessions session hmem
  have hhash' : r.tokenHash = hash token := hstays.tokenHash.trans (of_decide_eq_true hhash)
  constructor
  · obtain ⟨op, result, hin, hanswered⟩ := htokens.issued r hr'
    exact ⟨op, result, hin, hanswered.tokenHash.symm.trans hhash'⟩
  · intro op result hin hsame
    obtain ⟨r', hr'', hanswered⟩ := htokens.kept op result hin
    obtain rfl : r' = r :=
      eq_of_conflict hr'' hr' (.inr (hanswered.tokenHash.trans (hsame.trans hhash'.symm)))
    refine ⟨hanswered.userId.symm.trans hstays.userId, ?_⟩
    rw [← hanswered.expiresAt, hstays.expiresAt]
    exact (of_decide_eq_true hactive).2

/-- The token of a refresh lets its user in. -/
theorem admitted_as_answered_refreshed :
    ∃ op result, (op, Reply.login result) ∈
      ((system sha256 thirtyDays).serial {} (loginAndRefresh 1)).replies ∧
        sha256 result.accessToken = sha256 "second-token" := by
  set h := (system sha256 thirtyDays).serial {} (loginAndRefresh 1) with hh
  have hreach : (system sha256 thirtyDays).Reachable h := Program.serial_reachable _ rfl _
  have htoken : bearerToken (some "Bearer second-token") = .ok "second-token" := by decide +kernel
  have hadmitted : getCurrentUserId { appEnv := "production" } sha256 (some "Bearer second-token") 2
      (fun _ => h.cur) = .ok (stampsFrom 10 0 0).id := by
    rw [hh]
    decide +kernel
  exact (admitted_as_answered hreach (fun _ => List.mem_cons_self) htoken (by decide) hadmitted).1

/-! ## Tokens that are over -/

/-- The call ended the session of the token. -/
def endsSession (hash : String → String) (tokenHash : String) : Op × Reply → Bool
  | (.refresh accessToken _ _, .login _) => hash accessToken = tokenHash
  | (.logout _ accessToken _, .done) => hash accessToken = tokenHash
  | _ => false

/-- The call asked for the deletion of the account. -/
def endsAccount (userId : UUID) : Op × Reply → Bool
  | (.requestDeletion owner _ _, .done) => owner = userId
  | _ => false

/-- A session that a transaction read and revokes is revoked. -/
theorem revokedFor_revoke {session : BusinessSession} (hlater : AdmissionLater v s)
    (hread : SessionRepository.getByTokenHash tokenHash v.businessSessions = some session) :
    ∃ r ∈ SessionRepository.update (session.revoke now) s.businessSessions,
      r.tokenHash = tokenHash ∧ r.revokedAt ≠ none := by
  obtain ⟨hmem, hhash⟩ := get_eq_some hread
  obtain ⟨r, hr, hstays⟩ := hlater.sessions session hmem
  refine ⟨_, mem_update_of_pos hr (decide_eq_true hstays.id), ?_, Option.some_ne_none now⟩
  exact hstays.tokenHash.trans (of_decide_eq_true hhash)

theorem commit_endsSession (hlater : ∀ n, AdmissionLater (view n) s)
    (h : endsSession hash tokenHash (op, (commit hash sessionTtl op view s).2) = true) :
    RevokedFor tokenHash (commit hash sessionTtl op view s).1 := by
  unfold endsSession at h
  split at h
  · next accessToken newAccessToken fresh result hentry =>
    obtain ⟨rfl, hreply⟩ := Prod.mk.inj hentry
    obtain rfl := of_decide_eq_true h
    simp only [commit, answered] at hreply ⊢
    split at hreply
    · next s₂ result' hrefresh =>
      simp only [refreshSession, bind_eq_ok, orRaise_eq_ok, ensure_eq_ok] at hrefresh
      obtain ⟨session, hread, -, -, -, -, hopen⟩ := hrefresh
      obtain ⟨r', hinsert, -⟩ := openSession_answered hopen
      obtain ⟨r, hr, hrevoked⟩ := revokedFor_revoke (hlater 0) hread
      exact ⟨r, (mem_insert? hinsert).mpr (.inl hr), hrevoked⟩
    · cases hreply
  · next userId accessToken now hentry =>
    obtain ⟨rfl, hreply⟩ := Prod.mk.inj hentry
    obtain rfl := of_decide_eq_true h
    simp only [commit] at hreply ⊢
    cases hlogout : logout hash userId accessToken now view s with
    | error error =>
      rw [hlogout] at hreply
      cases hreply
    | ok s' =>
      simp only [logout, bind_eq_ok, orRaise_eq_ok, ensure_eq_ok, pure_eq_ok] at hlogout
      obtain ⟨session, hread, -, -, rfl⟩ := hlogout
      exact revokedFor_revoke (hlater 0) hread
  · cases h

theorem commit_endsAccount (hviews : ∀ n, AccountsLater (view n) s ∧ AdmissionLater (view n) s)
    (h : endsAccount userId (op, (commit hash sessionTtl op view s).2) = true) :
    Inactive userId (commit hash sessionTtl op view s).1 := by
  unfold endsAccount at h
  split at h
  · next owner now stamp hentry =>
    obtain ⟨rfl, hreply⟩ := Prod.mk.inj hentry
    obtain rfl := of_decide_eq_true h
    simp only [commit] at hreply ⊢
    cases hrequest : requestAccountDeletion owner now stamp view s with
    | error error =>
      rw [hrequest] at hreply
      cases hreply
    | ok s' =>
      show Inactive owner s'
      simp only [requestAccountDeletion, bind_eq_ok, orRaise_eq_ok] at hrequest
      obtain ⟨user, hread, hrequest⟩ := hrequest
      obtain ⟨hmem, hid⟩ := get_eq_some hread
      have hid : user.id = owner := of_decide_eq_true hid
      by_cases hstatus : user.status = .deleted
      · -- the account is gone already, and stays so
        rw [if_pos hstatus] at hrequest
        obtain rfl := pure_eq_ok.mp hrequest
        exact (hviews 0).2.inactive owner ⟨user, hmem, hid, by simp [hstatus]⟩
      · rw [if_neg hstatus, User.beginDeletion, if_neg hstatus] at hrequest
        simp only [bind_eq_ok, orRaise_eq_ok] at hrequest
        obtain ⟨users, huser, hrequest⟩ := hrequest
        obtain ⟨u, hu, hsame⟩ := (hviews 0).1.users user hmem
        have hin : ∃ u ∈ users, u.id = owner ∧ u.status ≠ .active := by
          refine ⟨_, (mem_update? huser).mpr ⟨u, hu, rfl⟩, ?_⟩
          rw [updateRow_pos (p := fun r : User => decide (r.id = user.id)) (decide_eq_true hsame)]
          exact ⟨hsame.trans hid, by simp [UserRepository.updateValues]⟩
        split at hrequest
        · obtain rfl := pure_eq_ok.mp hrequest
          exact hin
        · obtain ⟨store, -, hrequest⟩ := bind_eq_ok.mp hrequest
          obtain rfl := pure_eq_ok.mp hrequest
          exact hin
  · cases h

/-- In every history, a token whose session a call ended is refused by every request that reads
later, and no request that reads after the deletion of an account was asked for comes in as its
user. -/
theorem refused_for_good (hr : (system hash sessionTtl).Reachable h) {k : ℕ} {entry : Op × Reply}
    (hk : h.replies[k]? = some entry) (hviews : ∀ n, view n ∈ h.states.take (k + 1))
    (htoken : bearerToken authorization = .ok token) (hdev : ¬settings.IsDevToken token) :
    (endsSession hash (hash token) entry = true →
      getCurrentUserId settings hash authorization now view =
        .error (.httpException 401 "Invalid or expired session.")) ∧
    ∀ userId, endsAccount userId entry = true →
      getCurrentUserId settings hash authorization now view ≠ .ok userId := by
  obtain ⟨op, reply⟩ := entry
  obtain ⟨h₀, view₀, hr₀, hviews₀, -, rfl, hstates⟩ := hr.answered hk
  have hstable := admission_stable hash sessionTtl fun _ _ _ => True
  have hread₀ := fun n => hstable.rel_mem hr₀ (hviews₀ n)
  have hcommitted : (commit hash sessionTtl op view₀ h₀.cur).1 ∈ h.states.drop k := by
    rw [hstates]
    exact List.mem_cons_self
  have hread := fun n => (hstable.rel_since hr hcommitted (hviews n)).2
  rw [getCurrentUserId_of_token htoken hdev]
  constructor
  · intro hends
    have hrevoked := commit_endsSession (fun n => (hread₀ n).2) hends
    exact sessionUserId_of_revoked (hrevoked.later (hread 0))
  · intro userId hends
    exact sessionUserId_of_inactive ((hread 1).inactive _ (commit_endsAccount hread₀ hends))

/-- The token that was exchanged in a refresh is refused from then on. -/
theorem refused_for_good_refreshed :
    getCurrentUserId { appEnv := "production" } sha256 (some "Bearer first-token") 2
      (fun _ => ((system sha256 thirtyDays).serial {} (loginAndRefresh 1)).cur) =
        .error (.httpException 401 "Invalid or expired session.") := by
  set h := (system sha256 thirtyDays).serial {} (loginAndRefresh 1) with hh
  have hreach : (system sha256 thirtyDays).Reachable h := Program.serial_reachable _ rfl _
  have hends : h.replies[0]?.any (endsSession sha256 (sha256 "first-token")) = true := by
    rw [hh]
    decide +kernel
  have htoken : bearerToken (some "Bearer first-token") = .ok "first-token" := by decide +kernel
  obtain ⟨entry, hentry, hends⟩ := (Option.any_eq_true _ _).mp hends
  exact (refused_for_good hreach hentry (fun _ => List.mem_cons_self) htoken (by decide)).1 hends

end Identity
