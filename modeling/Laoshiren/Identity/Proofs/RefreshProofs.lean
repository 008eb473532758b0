import Laoshiren.Identity.Proofs.EffectProofs

/-!
# Sessions that are refreshed

A refresh revokes the session that it read and opens a new one, without a lock on the row and without a
look at its expiry. Where the row that it read is still the committed one, and the token has not
expired, no session is exchanged twice (`refreshed_once`).
-/

namespace Identity

open Runtime Raise Table

variable {hash : String → String} {sessionTtl : ℤ} {view : ℕ → State} {s s' : State} {op : Op}
  {reply : Reply} {h : History State Op Reply}

/-! ## What becomes of a session -/

/-- What stays of a session: everything but its revocation, which may be set. -/
structure SessionLater (r r' : BusinessSession) : Prop where
  id : r'.id = r.id
  userId : r'.userId = r.userId
  tokenHash : r'.tokenHash = r.tokenHash
  expiresAt : r'.expiresAt = r.expiresAt
  revoked : r.revokedAt ≠ none → r'.revokedAt ≠ none

theorem SessionLater.refl (r : BusinessSession) : SessionLater r r := ⟨rfl, rfl, rfl, rfl, fun h => h⟩

theorem SessionLater.trans {r₁ r₂ r₃ : BusinessSession} (h : SessionLater r₁ r₂)
    (h' : SessionLater r₂ r₃) : SessionLater r₁ r₃ :=
  ⟨h'.id.trans h.id, h'.userId.trans h.userId, h'.tokenHash.trans h.tokenHash,
    h'.expiresAt.trans h.expiresAt, fun hrevoked => h'.revoked (h.revoked hrevoked)⟩

/-- A session that was just opened. -/
def Opened (r : BusinessSession) : Prop := r.revokedAt = none

theorem grows_revoke {n : BusinessSession → Prop} (session : BusinessSession) (now : Timestamp)
    (t : Table BusinessSession) :
    t.Grows SessionLater n (SessionRepository.update (session.revoke now) t) := by
  unfold SessionRepository.update
  refine .update SessionLater.refl fun r _ _ => ?_
  exact ⟨rfl, rfl, rfl, rfl, fun _ => Option.some_ne_none now⟩

theorem grows_revokeForUser {new : BusinessSession → Prop} (userId : UUID) (now : Timestamp)
    (seen t : Table BusinessSession) :
    t.Grows SessionLater new (SessionRepository.revokeForUser userId now seen t) := by
  unfold SessionRepository.revokeForUser
  refine .update SessionLater.refl fun r _ _ => ?_
  exact ⟨rfl, rfl, rfl, rfl, fun _ => Option.some_ne_none now⟩

theorem opened_issuedSession {userId : UUID} {deviceId : Option UUID} {accessToken : String}
    {stamp : Stamp} : Opened (issuedSession hash sessionTtl userId deviceId accessToken stamp) := rfl

theorem Effect.sessions (h : Effect hash sessionTtl view s op s' reply) :
    s.businessSessions.Grows SessionLater Opened s'.businessSessions := by
  have hkept : s.businessSessions.Grows SessionLater Opened s.businessSessions :=
    .refl SessionLater.refl _
  cases h with
  | nothing => exact hkept
  | login huser hdevice hsession => exact .insert? SessionLater.refl opened_issuedSession hsession
  | refresh hread hopen hactive hsession =>
    exact (grows_revoke (n := fun _ => False) _ _ _).trans
      (.insert? SessionLater.refl opened_issuedSession hsession)
      (fun _ _ _ => SessionLater.trans) (fun _ _ h _ => h.elim)
  | logout hread hendpoints => exact grows_revoke _ _ _
  | registers => exact hkept
  | upserts => exact hkept
  | detaches => exact hkept
  | requests => exact hkept
  | deletes hclaimed hready hdeletes hjobs =>
    cases hdeletes with
    | passed => exact hkept
    | deleted hread hstatus husers hdevices hsessions =>
      rw [hsessions]
      exact grows_revokeForUser _ _ _ _
  | claims => exact hkept
  | ensures => exact hkept
  | other hforeign =>
    rw [hforeign.businessSessions]
    exact hkept

theorem commit_sessions (op : Op) : s.businessSessions.Grows SessionLater Opened
    (commit hash sessionTtl op view s).1.businessSessions :=
  (commit_effect hash sessionTtl view op).sessions

/-- A session of a token that is revoked. -/
def RevokedFor (tokenHash : String) (s : State) : Prop :=
  ∃ r ∈ s.businessSessions, r.tokenHash = tokenHash ∧ r.revokedAt ≠ none

theorem RevokedFor.commit {tokenHash : String} (h : RevokedFor tokenHash s) (op : Op) :
    RevokedFor tokenHash (commit hash sessionTtl op view s).1 := by
  obtain ⟨r, hr, htoken, hrevoked⟩ := h
  obtain ⟨r', hr', hlater⟩ := (commit_sessions op).kept r hr
  exact ⟨r', hr', hlater.tokenHash.trans htoken, hlater.revoked hrevoked⟩

/-! ## Refreshes -/

/-- A session that a refresh finds open is still the committed row, and it has not expired. -/
def Op.Current (hash : String → String) (view : ℕ → State) (s : State) : Op → Prop
  | .refresh accessToken _ fresh => ∀ session,
      SessionRepository.getByTokenHash (hash accessToken) (view 0).businessSessions = some session →
      session.revokedAt = none → (view 1).hasActive session.userId = true →
      session ∈ s.businessSessions ∧ (fresh 0).now < session.expiresAt
  | _ => True

/-- A refresh under a token with this hash succeeded. -/
def exchanges (hash : String → String) (tokenHash : String) : Op × Reply → Bool
  | (.refresh accessToken _ _, .login _) => hash accessToken = tokenHash
  | _ => false

/-- What a refresh that succeeds finds and leaves. -/
theorem refresh_exchanges {accessToken newAccessToken : String} {fresh : ℕ → Stamp}
    {result : LoginResultDTO} (hcurrent : (Op.refresh accessToken newAccessToken fresh).Current hash
      view s)
    (hreply : (commit hash sessionTtl (.refresh accessToken newAccessToken fresh) view s).2 =
      .login result) :
    (∃ session ∈ s.businessSessions, session.tokenHash = hash accessToken ∧
      session.isActive (fresh 0).now = true) ∧
    RevokedFor (hash accessToken)
      (commit hash sessionTtl (.refresh accessToken newAccessToken fresh) view s).1 := by
  have heffect := commit_effect hash sessionTtl view (s := s)
    (.refresh accessToken newAccessToken fresh)
  rw [hreply] at heffect
  generalize (commit hash sessionTtl (.refresh accessToken newAccessToken fresh) view s).1 = s'
    at heffect ⊢
  cases heffect with
  | nothing hnot => exact absurd rfl (hnot result)
  | claims hjobs hnot => exact absurd rfl (hnot result)
  | @refresh _ _ _ session businessSessions _ hread hopen hactive hsession =>
    obtain ⟨hmem, hexpires⟩ := hcurrent session hread hopen hactive
    have htoken : session.tokenHash = hash accessToken := of_decide_eq_true (get_eq_some hread).2
    refine ⟨⟨session, hmem, htoken, ?_⟩, session.revoke (fresh 0).now, ?_, htoken,
      Option.some_ne_none _⟩
    · simp [BusinessSession.isActive, hopen, hexpires]
    · exact (mem_insert? hsession).mpr (.inl (mem_update_of_pos hmem (decide_eq_true rfl)))

/-- How often a token was exchanged: once at most, and then its session is revoked. -/
def ExchangedOnce (hash : String → String) (replies : List (Op × Reply)) (s : State) : Prop :=
  ∀ tokenHash, (∀ entry ∈ replies, exchanges hash tokenHash entry = false) ∨
    replies.countP (exchanges hash tokenHash) = 1 ∧ RevokedFor tokenHash s

theorem ExchangedOnce.step {replies : List (Op × Reply)} (h : ExchangedOnce hash replies s) (op : Op)
    (hcurrent : op.Current hash view s) :
    ExchangedOnce hash ((op, (commit hash sessionTtl op view s).2) :: replies)
      (commit hash sessionTtl op view s).1 := by
  intro tokenHash
  cases hexchanges : exchanges hash tokenHash (op, (commit hash sessionTtl op view s).2) with
  | false =>
    rcases h tokenHash with hnone | ⟨hcount, hrevoked⟩
    · exact .inl (List.forall_mem_cons.mpr ⟨hexchanges, hnone⟩)
    · refine .inr ⟨?_, hrevoked.commit op⟩
      rw [List.countP_cons_of_neg (by simp [hexchanges]), hcount]
  | true =>
    -- the session was open, so its token was not exchanged before
    unfold exchanges at hexchanges
    split at hexchanges
    · next accessToken newAccessToken fresh result hentry =>
      obtain ⟨rfl, hreply⟩ := Prod.mk.inj hentry
      obtain rfl := of_decide_eq_true hexchanges
      obtain ⟨⟨session, hsession, htoken, hactive⟩, hrevoked⟩ := refresh_exchanges hcurrent hreply
      refine .inr ⟨?_, hrevoked⟩
      rcases h (hash accessToken) with hnone | ⟨-, r, hr, htoken', hrevoked'⟩
      · have hcount : replies.countP (exchanges hash (hash accessToken)) = 0 :=
          List.countP_eq_zero.mpr fun entry hentry => by simp [hnone entry hentry]
        rw [List.countP_cons_of_pos (by simp [exchanges, hreply]), hcount]
      · obtain rfl := eq_of_conflict hr hsession (.inr (htoken'.trans htoken.symm))
        exact absurd (of_decide_eq_true hactive).1 hrevoked'
    · cases hexchanges

/-! ## Every history -/

theorem system_stable (ok : Op → (ℕ → State) → State → Prop) :
    Program.Stable (system hash sessionTtl) ok (fun _ => True) fun _ _ => True where
  init _ _ := trivial
  refl _ := trivial
  trans _ _ _ _ _ := trivial
  step _ _ _ _ _ _ := ⟨trivial, trivial⟩

/-- In a history in which every refresh finds the committed row of a session that has not expired, a
refresh that succeeds exchanges a session that is active when it commits, and no session is exchanged
twice. -/
theorem refreshed_once
    (hr : (system hash sessionTtl).ReachableIf (fun op view s => op.Current hash view s) h) :
    (∀ j accessToken newAccessToken fresh result,
      h.replies[j]? = some (.refresh accessToken newAccessToken fresh, .login result) →
      ∃ s, h.states[j + 1]? = some s ∧ ∃ session ∈ s.businessSessions,
        session.tokenHash = hash accessToken ∧ session.isActive (fresh 0).now = true) ∧
    ∀ tokenHash, h.replies.countP (exchanges hash tokenHash) ≤ 1 := by
  constructor
  · intro j accessToken newAccessToken fresh result hj
    obtain ⟨h₀, view, -, -, hcurrent, hreply, hstates⟩ := hr.answered hj
    refine ⟨h₀.cur, ?_, (refresh_exchanges hcurrent hreply).1⟩
    have hsecond := congrArg (fun states => states[1]?) hstates
    simp only [List.getElem?_drop] at hsecond
    exact hsecond
  · intro tokenHash
    have hlog := (system_stable _).log_induction (ExchangedOnce hash)
      (fun _ _ _ => .inl fun _ h => absurd h List.not_mem_nil)
      (fun op view s replies _ _ hcurrent h => h.step op hcurrent) hr tokenHash
    rcases hlog with hnone | ⟨hcount, -⟩
    · rw [List.countP_eq_zero.mpr fun entry hentry => by simp [hnone entry hentry]]
      exact Nat.zero_le 1
    · exact hcount.le

/-- SHA-256 of the tokens below. -/
def sha256 : String → String
  | "first-token" => "55b4b48f529c3d2daa027cbffa6cfb6a03690424550f22109e39917406c8243b"
  | "second-token" => "7a35833597e6687c599a0988b7a53b9b6a7ec18b88ca2a8e60f3265c8be6d527"
  | "third-token" => "4805ab0624bf846ebd4ee89b43701d8e83e3912a3294b46907753515fe8d9a09"
  | _ => ""

/-- Thirty days. -/
def thirtyDays : ℤ := 30 * 24 * 60 * 60 * 1000000

/-- A login at the time 0, and a refresh of its session at `now`. -/
def loginAndRefresh (now : Timestamp) : List Op :=
  [.login { externalSubject := "subject" } "first-token" (stampsFrom 10 0),
    .refresh "first-token" "second-token" (stampsFrom 20 now)]

/-- A refresh in time is the only one of its session. -/
theorem refreshed_once_inTime :
    ((system sha256 thirtyDays).serial {} (loginAndRefresh 1)).replies.countP
      (exchanges sha256 (sha256 "first-token")) ≤ 1 := by
  set before := (system sha256 thirtyDays).serial {} ((loginAndRefresh 1).take 1) with hbefore
  have hall : (SessionRepository.getByTokenHash (sha256 "first-token")
      before.cur.businessSessions).all (fun session =>
        decide (session ∈ before.cur.businessSessions.rows) && decide (1 < session.expiresAt)) =
          true := by
    decide +kernel
  have hmeets : (system sha256 thirtyDays).SerialMeets
      (fun op view s => op.Current sha256 view s) ⟨{}, [], []⟩ (loginAndRefresh 1) := by
    refine ⟨trivial, fun session hread _ _ => ?_, trivial⟩
    rw [show SessionRepository.getByTokenHash (sha256 "first-token") before.cur.businessSessions =
      some session from hread] at hall
    have hsession : session ∈ before.cur.businessSessions.rows ∧ 1 < session.expiresAt := by
      simpa using hall
    exact hsession
  exact (refreshed_once ((system sha256 thirtyDays).serial_reachableIf rfl _ hmeets)).2 _

/-- A refresh under the token of the session succeeded after it expired. -/
def exchangesExpired (hash : String → String) (session : BusinessSession) : Op × Reply → Bool
  | (.refresh accessToken _ fresh, .login _) =>
    hash accessToken = session.tokenHash ∧ session.expiresAt ≤ (fresh 0).now
  | _ => false

/-- Two refreshes of one session, long after it expired: the second one read the session before the
first one committed. -/
def refreshedLate : History State Op Reply :=
  let refreshed := (system sha256 thirtyDays).serial {} (loginAndRefresh (2 * thirtyDays))
  (system sha256 thirtyDays).extend refreshed
    (.refresh "first-token" "third-token" (stampsFrom 30 (2 * thirtyDays)))
    fun _ => refreshed.stateAt ⟨1, by decide⟩

/-- A session is exchanged twice, and after it expired. -/
theorem refreshed_twice :
    ∃ h : History State Op Reply, (system sha256 thirtyDays).Reachable h ∧
      ∃ session ∈ h.cur.businessSessions,
        h.replies.countP (exchanges sha256 session.tokenHash) = 2 ∧
        h.replies.any (exchangesExpired sha256 session) = true := by
  have hreach : (system sha256 thirtyDays).Reachable refreshedLate :=
    ((system sha256 thirtyDays).serial_reachable rfl _).commit _ _
      (fun _ => History.stateAt_mem _ _) trivial
  have hrows : ∃ session ∈ refreshedLate.cur.businessSessions.rows,
      refreshedLate.replies.countP (exchanges sha256 session.tokenHash) = 2 ∧
        refreshedLate.replies.any (exchangesExpired sha256 session) = true := by
    decide +kernel
  exact ⟨refreshedLate, hreach, hrows⟩

end Identity
