import Mathlib.Data.List.Sort
import Mathlib.Logic.Function.Basic
import Laoshiren.Foundation.Text
import Laoshiren.Runtime.Entities

/-!
# The search service and its cache

Three kinds of calls share one cache. A call is answered from the cache, or it asks the provider and
stores the answer when that comes, while other calls go on.

An entry of the cache carries the call that stored it, which the code does not keep.
-/

namespace Search

/-- What a cache key is the digest of. -/
structure CachePayload where
  mode : String
  query : String
  limit : ℤ
  recencyDays : Option ℤ
  domains : List String
  deriving DecidableEq

/-- What the code takes from the interpreter. -/
structure Interpreter where
  /-- `text.lower()`. -/
  lower : String → String
  /-- `urlparse(text).netloc`. -/
  netloc : String → String
  /-- The SHA-256 digest of the JSON text of a payload. -/
  digest : CachePayload → String

structure SearchHit where
  title : String
  url : String
  snippet : String
  publishedAt : Option Timestamp
  domain : String
  rankScore : ℚ
  deriving DecidableEq

structure SearchResponse where
  query : String
  provider : String
  retrievedAt : Timestamp
  hits : List SearchHit
  cacheKey : Option String := none
  deriving DecidableEq

/-- The settings of the service. -/
structure Settings where
  defaultLimit : ℤ := 5
  maxSnippetCharacters : ℕ := 8000
  cacheTtlSeconds : ℤ := 21600

inductive SearchCall where
  | searchWeb (query : String) (limit recencyDays : Option ℤ) (domains : Option (List String))
  | searchOfficial (query : String) (officialDomains : Option (List String))
      (limit recencyDays : Option ℤ)
  | inspectUrl (url : String)
  deriving DecidableEq

variable (py : Interpreter) (settings : Settings)

/-! ## The key of a call -/

/-- `text.startswith(mark)`. -/
def startsWith (text mark : String) : Bool := mark.toList.isPrefixOf text.toList

def normalizeDomain (value : String) : String :=
  let cleaned := py.lower (Text.strip value)
  let host :=
    if startsWith cleaned "http://" ∨ startsWith cleaned "https://" then py.netloc cleaned else cleaned
  if startsWith host "www." then String.ofList (host.toList.drop 4) else host

/-- `_normalize_domains`: no domain twice, in their order. -/
def normalizeDomains (domains : Option (List String)) : List String :=
  ((((domains.getD []).filter fun item => !Text.isBlank item).map (normalizeDomain py)).dedup).mergeSort
    fun domain other => decide (domain ≤ other)

/-- `limit or self._default_limit`. -/
def resolvedLimit (limit : Option ℤ) : ℤ :=
  match limit with
  | none | some 0 => settings.defaultLimit
  | some n => n

namespace SearchCall

/-- The query in the key: `query.strip().lower()`. -/
def keyQuery (query : String) : String := py.lower (Text.strip query)

/-- What the key of a call is made of. -/
def payload : SearchCall → CachePayload
  | .searchWeb query limit recencyDays domains =>
    ⟨"web", keyQuery py query, resolvedLimit settings limit, recencyDays, normalizeDomains py domains⟩
  | .searchOfficial query officialDomains limit recencyDays =>
    ⟨"official", keyQuery py query, resolvedLimit settings limit, recencyDays,
      normalizeDomains py officialDomains⟩
  | .inspectUrl url => ⟨"url_inspect", keyQuery py (Text.strip url), 1, none, []⟩

/-- `_search_cache_key`. -/
def cacheKey (c : SearchCall) : String := py.digest (c.payload py settings)

/-- A call that does not raise `ValueError`. -/
def accepted : SearchCall → Bool
  | .inspectUrl url =>
    startsWith (Text.strip url) "http://" || startsWith (Text.strip url) "https://"
  | .searchWeb _ _ _ _ | .searchOfficial _ _ _ _ => true

end SearchCall

/-! ## What is stored -/

/-- `_boost_official_hits`. -/
def boostOfficialHits (officialDomains : List String) (hits : List SearchHit) : List SearchHit :=
  if officialDomains = [] then hits
  else
    (hits.map fun hit =>
      if normalizeDomain py hit.domain ∈ officialDomains then
        { hit with rankScore := min 1 (hit.rankScore + 3 / 10) }
      else hit).mergeSort fun hit other => decide (other.rankScore ≤ hit.rankScore)

/-- `_trim_snippets`, with `total` characters taken. -/
def trimSnippets (maxCharacters total : ℕ) : List SearchHit → List SearchHit
  | [] => []
  | hit :: hits =>
    if total + hit.snippet.length > maxCharacters then
      if maxCharacters ≤ total then []
      else
        let snippet := String.ofList (hit.snippet.toList.take (maxCharacters - total))
        { hit with snippet } :: trimSnippets maxCharacters (total + snippet.length) hits
    else hit :: trimSnippets maxCharacters (total + hit.snippet.length) hits

/-- `url.rstrip("/")`. -/
def withoutSlashes (url : String) : String :=
  String.ofList (url.toList.reverse.dropWhile (· = '/')).reverse

/-- The response that a call stores, from the one of the provider. -/
def SearchCall.stored (c : SearchCall) (response : SearchResponse) : SearchResponse :=
  let trimmed := trimSnippets settings.maxSnippetCharacters 0
  match c with
  | .searchWeb _ _ _ _ =>
    { response with hits := trimmed response.hits, cacheKey := some (c.cacheKey py settings) }
  | .searchOfficial _ officialDomains _ _ =>
    { response with
      hits := trimmed (boostOfficialHits py (normalizeDomains py officialDomains) response.hits)
      cacheKey := some (c.cacheKey py settings) }
  | .inspectUrl url =>
    let normalized := Text.strip url
    let same := response.hits.filter fun hit => withoutSlashes hit.url = withoutSlashes normalized
    { response with
      query := normalized
      hits := trimmed (if same = [] then response.hits.take 1 else same)
      cacheKey := some (c.cacheKey py settings) }

/-- What a call answers with. -/
structure SearchPayload where
  query : String
  retrievedAt : Timestamp
  provider : String
  officialDomains : List String
  replayed : Bool
  items : List SearchHit
  url : Option String := none

/-- `_to_payload`, with the URL that was asked for. -/
def SearchCall.answer (c : SearchCall) (response : SearchResponse) (replayed : Bool) :
    SearchPayload where
  query := response.query
  retrievedAt := response.retrievedAt
  provider := response.provider
  officialDomains :=
    match c with
    | .searchOfficial _ officialDomains _ _ => normalizeDomains py officialDomains
    | .searchWeb _ _ _ _ | .inspectUrl _ => []
  replayed
  items := response.hits
  url :=
    match c with
    | .inspectUrl url => some (Text.strip url)
    | .searchWeb _ _ _ _ | .searchOfficial _ _ _ _ => none

/-! ## Histories -/

structure Entry where
  storedAt : Timestamp
  response : SearchResponse
  /-- The call that stored the entry. -/
  origin : SearchCall

structure Service where
  cache : String → Option Entry := fun _ => none
  /-- The calls that wait for the provider. -/
  pending : List SearchCall := []

inductive Event where
  | call (c : SearchCall) (now : Timestamp)
  /-- The provider answers a call that waits. -/
  | answered (c : SearchCall) (response : SearchResponse) (now : Timestamp)

/-- An entry that is too old. -/
def Entry.expired (e : Entry) (now : Timestamp) : Bool :=
  settings.cacheTtlSeconds * 1000000 < now - e.storedAt

namespace Service

/-- `_read_cache`: the entry that answers a call. -/
def served (s : Service) (c : SearchCall) (now : Timestamp) : Option Entry :=
  if c.accepted then
    (s.cache (c.cacheKey py settings)).filter fun e => !e.expired settings now
  else none

def step (s : Service) : Event → Service
  | .call c now =>
    if c.accepted then
      match s.served py settings c now with
      | some _ => s
      | none =>
        { cache := Function.update s.cache (c.cacheKey py settings) none
          pending := c :: s.pending }
    else s
  | .answered c response now =>
    if c ∈ s.pending then
      { cache := Function.update s.cache (c.cacheKey py settings)
          (some ⟨now, c.stored py settings response, c⟩)
        pending := s.pending.erase c }
    else s

/-- The service after a history of events. -/
def run (history : List Event) : Service := history.foldl (step py settings) {}

end Service

/-! ## Answers from the cache -/

/-- The calls are of one mode, with one limit, recency and list of domains. -/
def SameRequest (c other : SearchCall) : Prop :=
  (c.payload py settings).mode = (other.payload py settings).mode ∧
    (c.payload py settings).limit = (other.payload py settings).limit ∧
    (c.payload py settings).recencyDays = (other.payload py settings).recencyDays ∧
    (c.payload py settings).domains = (other.payload py settings).domains

/-- Where one of the calls inspects a URL, the other inspects the same one. -/
def SameUrl (c other : SearchCall) : Prop :=
  ∀ url, other = .inspectUrl url → ∃ url', c = .inspectUrl url' ∧ Text.strip url' = Text.strip url

/-- No URL was inspected, and its answer is fresh, that has the key of the inspected one and is not the
same. -/
def UrlApart (before : List Event) (c : SearchCall) (now : Timestamp) : Prop :=
  ∀ url url' response at_, c = .inspectUrl url →
    .answered (.inspectUrl url') response at_ ∈ before →
    now - at_ ≤ settings.cacheTtlSeconds * 1000000 →
    SearchCall.keyQuery py (Text.strip url') = SearchCall.keyQuery py (Text.strip url) →
      Text.strip url' = Text.strip url

/-- The digests of the calls of a history do not collide. -/
def NoCollisions (history : List Event) (c : SearchCall) : Prop :=
  ∀ c' response at_, .answered c' response at_ ∈ history →
    c'.cacheKey py settings = c.cacheKey py settings →
      c'.payload py settings = c.payload py settings

end Search
