import Laoshiren.Search.Service

/-!
# Proofs: what the cache answers with

Every entry of the cache was stored by a call with the key of the entry. The key says everything about
the call but the case of its letters.
-/

namespace Search

open Service

variable {py : Interpreter} {settings : Settings}

/-- An entry was stored under the key of its call, when the provider answered that call. -/
def Stored (py : Interpreter) (settings : Settings) (history : List Event) (key : String)
    (e : Entry) : Prop :=
  key = e.origin.cacheKey py settings ∧ ∃ response, .answered e.origin response e.storedAt ∈ history

theorem Stored.snoc {history : List Event} {key : String} {e : Entry}
    (h : Stored py settings history key e) (event : Event) :
    Stored py settings (history ++ [event]) key e := by
  obtain ⟨hkey, response, hmem⟩ := h
  exact ⟨hkey, response, List.mem_append_left _ hmem⟩

/-- A step keeps what is stored where it is, or forgets it, or stores the answer of a call. -/
theorem step_stored {s : Service} {history : List Event}
    (h : ∀ key e, s.cache key = some e → Stored py settings history key e) (event : Event) :
    ∀ key e, (s.step py settings event).cache key = some e →
      Stored py settings (history ++ [event]) key e := by
  intro key e hentry
  cases event with
  | call c now =>
    unfold step at hentry
    dsimp only at hentry
    split at hentry
    · split at hentry
      · exact (h key e hentry).snoc _
      · by_cases hkey : key = c.cacheKey py settings
        · dsimp only at hentry
          rw [hkey, Function.update_self] at hentry
          cases hentry
        · dsimp only at hentry
          rw [Function.update_of_ne hkey] at hentry
          exact (h key e hentry).snoc _
    · exact (h key e hentry).snoc _
  | answered c response now =>
    unfold step at hentry
    dsimp only at hentry
    split at hentry
    · by_cases hkey : key = c.cacheKey py settings
      · dsimp only at hentry
        rw [hkey, Function.update_self] at hentry
        obtain rfl := Option.some.inj hentry
        exact ⟨hkey, response, List.mem_append_right _ List.mem_cons_self⟩
      · dsimp only at hentry
        rw [Function.update_of_ne hkey] at hentry
        exact (h key e hentry).snoc _
    · exact (h key e hentry).snoc _

theorem run_stored (history : List Event) :
    ∀ key e, (run py settings history).cache key = some e → Stored py settings history key e := by
  induction history using List.reverseRecOn with
  | nil =>
    intro key e h
    cases h
  | append_singleton history event ih =>
    unfold run at ih ⊢
    rw [List.foldl_append]
    exact step_stored ih event

/-- The call that an answer from the cache was stored for, and when. -/
theorem served_spec {history : List Event} {c : SearchCall} {now : Timestamp} {e : Entry}
    (h : (run py settings history).served py settings c now = some e) :
    e.origin.cacheKey py settings = c.cacheKey py settings ∧
      now - e.storedAt ≤ settings.cacheTtlSeconds * 1000000 ∧
      ∃ response, .answered e.origin response e.storedAt ∈ history := by
  unfold served at h
  split at h
  · obtain ⟨hentry, hfresh⟩ := Option.filter_eq_some_iff.mp h
    obtain ⟨hkey, hmem⟩ := run_stored history _ e hentry
    refine ⟨hkey.symm, ?_, hmem⟩
    simpa [Entry.expired] using hfresh
  · cases h

/-- An answer from the cache was stored for a call of the same mode, limit, recency and domains. It was
stored for the same URL where no other URL with its key was answered within the time that the cache
keeps. -/
theorem served_answers_agree (py : Interpreter) (settings : Settings) (history : List Event)
    (hkeys : ∀ before after c now, history = before ++ .call c now :: after →
      NoCollisions py settings before c)
    (hapart : ∀ before after c now, history = before ++ .call c now :: after →
      UrlApart py settings before c now) :
    ∀ before after c now e, history = before ++ .call c now :: after →
      (run py settings before).served py settings c now = some e →
        SameRequest py settings e.origin c ∧ SameUrl e.origin c := by
  intro before after c now e hsplit hserved
  obtain ⟨hkey, hfresh, response, hmem⟩ := served_spec hserved
  have hpayload := hkeys before after c now hsplit e.origin response e.storedAt hmem hkey
  refine ⟨⟨by rw [hpayload], by rw [hpayload], by rw [hpayload], by rw [hpayload]⟩, ?_⟩
  rintro url rfl
  have hmode : (e.origin.payload py settings).mode = "url_inspect" := by
    rw [hpayload]
    rfl
  cases horigin : e.origin with
  | inspectUrl url' =>
    rw [horigin] at hpayload hmem
    refine ⟨url', rfl, ?_⟩
    refine hapart before after _ now hsplit url url' response e.storedAt rfl hmem hfresh ?_
    exact congrArg CachePayload.query hpayload
  | searchWeb _ _ _ _ =>
    rw [horigin] at hmode
    exact absurd hmode (by simp [SearchCall.payload])
  | searchOfficial _ _ _ _ =>
    rw [horigin] at hmode
    exact absurd hmode (by simp [SearchCall.payload])

/-! ## Two pages of one site -/

/-- An interpreter that gives the digest of the one payload below. -/
def asciiInterpreter : Interpreter where
  lower text := String.ofList (text.toList.map Char.toLower)
  netloc text := String.ofList (((text.toList.dropWhile (· ≠ '/')).drop 2).takeWhile (· ≠ '/'))
  digest payload :=
    if payload = ⟨"url_inspect", "https://a.cn/x", 1, none, []⟩ then
      "695d87c9e69decf2bafcecb49b9dd0bb9e0cc6648ffa1453d85c89505344e865"
    else ""

/-- What the provider knows of a page. -/
def pageAt (url : String) : SearchResponse where
  query := url
  provider := "tavily"
  retrievedAt := 1000000
  hits := [⟨"Opening hours", url, "Closed on Mondays.", none, "a.cn", 1⟩]

/-- A page is inspected, and the provider answers. -/
def pageInspected (url : String) : List Event :=
  [.call (.inspectUrl url) 0, .answered (.inspectUrl url) (pageAt url) 1000000]

/-- The same page is inspected again. -/
theorem served_answers_agree_again :
    ∃ e, (run asciiInterpreter {} (pageInspected "https://a.cn/x")).served asciiInterpreter {}
        (.inspectUrl "https://a.cn/x") 2000000 = some e ∧
      SameRequest asciiInterpreter {} e.origin (.inspectUrl "https://a.cn/x") ∧
      SameUrl e.origin (.inspectUrl "https://a.cn/x") := by
  have hcalls : ∀ event ∈
      pageInspected "https://a.cn/x" ++ [.call (.inspectUrl "https://a.cn/x") 2000000],
      (∀ c now, event = .call c now → c = .inspectUrl "https://a.cn/x") ∧
        ∀ c response at_, event = .answered c response at_ → c = .inspectUrl "https://a.cn/x" := by
    intro event hevent
    simp only [pageInspected, List.cons_append, List.nil_append, List.mem_cons, List.not_mem_nil,
      or_false] at hevent
    obtain rfl | rfl | rfl := hevent <;> simp_all
  have hserved : ((run asciiInterpreter {} (pageInspected "https://a.cn/x")).served asciiInterpreter
      {} (.inspectUrl "https://a.cn/x") 2000000).isSome = true := by
    decide +kernel
  obtain ⟨e, he⟩ := Option.isSome_iff_exists.mp hserved
  refine ⟨e, he, served_answers_agree asciiInterpreter {} (pageInspected "https://a.cn/x" ++
    [.call (.inspectUrl "https://a.cn/x") 2000000]) ?_ ?_ _ [] _ _ e rfl he⟩
  · intro before after c now hsplit c' response at_ hmem _
    rw [hsplit] at hcalls
    rw [(hcalls _ (by simp)).1 c now rfl,
      (hcalls _ (List.mem_append_left _ hmem)).2 c' response at_ rfl]
  · intro before after c now hsplit url url' response at_ hc hmem _ _
    rw [hsplit] at hcalls
    have hurl := (hcalls _ (by simp)).1 c now rfl
    have hurl' := (hcalls _ (List.mem_append_left _ hmem)).2 _ response at_ rfl
    rw [hc] at hurl
    rw [SearchCall.inspectUrl.inj hurl, SearchCall.inspectUrl.inj hurl']

/-- The answer for one page is given for another one, whose path differs in the case of a letter. -/
theorem page_answered_with_another :
    ∃ e, (run asciiInterpreter {} (pageInspected "https://a.cn/X")).served asciiInterpreter {}
          (.inspectUrl "https://a.cn/x") 2000000 = some e ∧
        e.origin = .inspectUrl "https://a.cn/X" ∧
        e.response.hits.map (·.url) = ["https://a.cn/X"] ∧
        ((SearchCall.inspectUrl "https://a.cn/x").answer asciiInterpreter e.response true).url =
          some "https://a.cn/x" ∧
        ¬SameUrl e.origin (.inspectUrl "https://a.cn/x") := by
  have hserved : ((run asciiInterpreter {} (pageInspected "https://a.cn/X")).served asciiInterpreter {}
      (.inspectUrl "https://a.cn/x") 2000000).map (fun e => (e.origin, e.response.hits.map (·.url))) =
        some (.inspectUrl "https://a.cn/X", ["https://a.cn/X"]) := by
    decide +kernel
  obtain ⟨e, he, hpair⟩ := Option.map_eq_some_iff.mp hserved
  obtain ⟨horigin, hhits⟩ := Prod.mk.inj hpair
  refine ⟨e, he, horigin, hhits, congrArg some (by decide +kernel), ?_⟩
  rw [horigin]
  intro h
  obtain ⟨url', horigin, hurl⟩ := h "https://a.cn/x" rfl
  obtain rfl := SearchCall.inspectUrl.inj horigin
  exact absurd hurl (by decide +kernel)

end Search
