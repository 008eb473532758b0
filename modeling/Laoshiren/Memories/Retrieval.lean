import Mathlib.Data.String.Basic
import Mathlib.Order.WithBot
import Laoshiren.Foundation.RankFusion
import Laoshiren.PersonalState.Attachments

/-!
# The retrieval of Memories

Memories are searched by their words and by their embeddings. Where both searches find some, the two
rankings are fused by the reciprocals of the ranks. The context of a Run is what is known of the
user and what is found for its query.
-/

namespace Memories

open Raise Runtime
open PersonalState (Memory MemoryType MemoryStatus)

/-! ## Rank fusion -/

/-- `reciprocal_rank_fusion`, with exact scores. -/
def reciprocalRankFusion (k : ℕ) (rankedIds : List (List UUID)) : List UUID :=
  RankFusion.fuse (fun rank => 1 / ((k : ℚ) + rank)) UUID.str rankedIds

/-! ## Searches -/

/-- A search among the Memories of a user. -/
structure MemorySearch (δ : Type) where
  userId : UUID
  query : Option String
  memoryType : Option MemoryType
  thingId : Option UUID
  /-- The embedding of the query: how far the embedding of a Memory is from it, and `⊤` for a Memory
  that has none. -/
  queryEmbedding : Option (Memory → WithTop δ)

section Search

variable {δ : Type} [LinearOrder δ] (ilike : String → String → Bool)

namespace MemoryRepository

/-- The rows that `search` selects. -/
def matching (q : MemorySearch δ) (status : MemoryStatus) (t : Table Memory) : List Memory :=
  t.select fun r => r.userId = q.userId ∧ r.status = status ∧
    (q.memoryType.all fun memoryType => r.memoryType = memoryType) ∧
    (q.thingId.all fun thingId => r.thingId = some thingId) ∧
    (q.query.filter fun query => query ≠ "").all fun query =>
      ilike r.content ("%" ++ query ++ "%") ∨ ilike r.summary ("%" ++ query ++ "%")

/-- The rows in the order of `search`. Those that are as near and as important as each other come in
the order in which they are stored. -/
def ranking (q : MemorySearch δ) (status : MemoryStatus) (t : Table Memory) : List Memory :=
  match q.queryEmbedding with
  | some distance =>
    ((matching ilike q status t).filter fun r => distance r ≠ ⊤).insertionSort fun r r' =>
      toLex (distance r, -r.importance) ≤ toLex (distance r', -r'.importance)
  | none =>
    if q.memoryType = some .profile ∧ q.query = none then
      (matching ilike q status t).insertionSort fun r r' =>
        toLex (r'.updatedAt, r'.id.toNat) ≤ toLex (r.updatedAt, r.id.toNat)
    else
      (matching ilike q status t).insertionSort fun r r' =>
        toLex (r'.importance, toLex (r'.updatedAt, r'.id.toNat)) ≤
          toLex (r.importance, toLex (r.updatedAt, r.id.toNat))

/-- `search`. -/
def search (q : MemorySearch δ) (status : MemoryStatus) (limit : ℕ) (t : Table Memory) :
    List Memory :=
  (ranking ilike q status t).take limit

end MemoryRepository

/-- The search by words, where the query has some. -/
def MemorySearch.lexical (q : MemorySearch δ) : Option (MemorySearch δ) :=
  (q.query.filter fun query => Text.strip query ≠ "").map fun query =>
    { q with query := some (Text.strip query), queryEmbedding := none }

/-- The search by the embedding of the query. -/
def MemorySearch.vector (q : MemorySearch δ) : Option (MemorySearch δ) :=
  q.queryEmbedding.map fun _ => { q with query := none }

/-- `hybrid_search_memories`: its searches read `view 0`, `view 1` and `view 2`. -/
def hybridSearchMemories (q : MemorySearch δ) (limit candidateMultiplier : ℕ)
    (view : ℕ → Table Memory) : List Memory :=
  let candidateLimit := max limit (limit * candidateMultiplier)
  let lexical := q.lexical.elim [] fun q =>
    MemoryRepository.search ilike q .active candidateLimit (view 0)
  let vector := q.vector.elim [] fun q =>
    MemoryRepository.search ilike q .active candidateLimit (view 1)
  if lexical ≠ [] ∧ vector ≠ [] then
    -- of two rows with one id the later one is kept
    let byId (id : UUID) := (lexical ++ vector).reverse.find? fun memory => memory.id = id
    ((reciprocalRankFusion 60 [lexical.map Memory.id, vector.map Memory.id]).take limit).filterMap byId
  else if vector ≠ [] then vector.take limit
  else if lexical ≠ [] then lexical.take limit
  else
    let words : MemorySearch δ := { q with queryEmbedding := none }
    MemoryRepository.search ilike words .active limit (view 2)

/-- `MemoryApplicationService.search`. -/
def searchMemories (q : MemorySearch δ) (limit : ℤ) (view : ℕ → Table Memory) :
    Raises (List Memory) := do
  ensure (.valueError "Memory search limit must be between 1 and 50.") (1 ≤ limit ∧ limit ≤ 50)
  let stripped : MemorySearch δ :=
    { q with query := (q.query.filter fun query => query ≠ "").map Text.strip }
  if q.queryEmbedding.isSome ∧ stripped.query.any fun query => query ≠ "" then
    return hybridSearchMemories ilike stripped limit.toNat 3 view
  else
    return MemoryRepository.search ilike stripped .active limit.toNat (view 0)

/-! ## The context of a Run -/

/-- `_MEMORY_TYPE_WEIGHTS`. -/
def memoryTypeWeight : MemoryType → ℚ
  | .profile => 1
  | .semantic => 1
  | .episodic => 4 / 5

/-- How much a Memory counts, exactly: one about a Thing at hand counts more. -/
def memoryScore (activeThingIds : List UUID) (memory : Memory) : ℚ :=
  memory.importance * memoryTypeWeight memory.memoryType +
    if memory.thingId.any activeThingIds.contains then 1 else 0

/-- `rank_memories`. -/
def rankMemories (activeThingIds : List UUID) (memories : List Memory) : List Memory :=
  memories.insertionSort fun r r' =>
    toLex (memoryScore activeThingIds r', r'.updatedAt) ≤
      toLex (memoryScore activeThingIds r, r.updatedAt)

structure MemoryContext where
  profile : List Memory
  relevant : List Memory
  deriving DecidableEq

/-- `load_context`: `embed` is `none` where there is no provider of embeddings, or where it fails.
The searches read `view 0`, `view 1` to `view 3`, and `view 4` to `view 6`. -/
def loadContext (embed : String → Option (Memory → WithTop δ)) (userId : UUID) (query : String)
    (profileLimit relevantLimit : ℤ) (activeThingIds : List UUID) (view : ℕ → Table Memory) :
    Raises MemoryContext := do
  let known : MemorySearch δ := ⟨userId, none, some .profile, none, none⟩
  let profile ← searchMemories ilike known profileLimit view
  let embedding := if Text.strip query = "" then none else embed (Text.strip query)
  let asked (memoryType : MemoryType) : MemorySearch δ :=
    ⟨userId, some query, some memoryType, none, embedding⟩
  let semantic ← searchMemories ilike (asked .semantic) relevantLimit fun n => view (n + 1)
  let episodic ← searchMemories ilike (asked .episodic) (max 1 (relevantLimit / 2)) fun n =>
    view (n + 4)
  let combined := rankMemories activeThingIds (semantic ++ episodic)
  return ⟨profile, combined.take relevantLimit.toNat⟩

/-- A context is in order: it holds active Memories of the user, each of them once and no more than
asked for, and no profile is crowded out by one that is older. -/
structure InOrder (userId : UUID) (profileLimit relevantLimit : ℤ) (view : ℕ → Table Memory)
    (context : MemoryContext) : Prop where
  active : ∀ memory ∈ context.profile ++ context.relevant,
    memory.userId = userId ∧ memory.status = .active ∧ ∃ n, memory ∈ view n
  profiles : ∀ memory ∈ context.profile, memory.memoryType = .profile
  relevant : ∀ memory ∈ context.relevant, memory.memoryType ≠ .profile
  distinct : ((context.profile ++ context.relevant).map Memory.id).Nodup
  length_profile : context.profile.length ≤ profileLimit
  length_relevant : context.relevant.length ≤ relevantLimit
  freshest : ∀ r ∈ view 0, r.userId = userId → r.status = .active → r.memoryType = .profile →
    r ∈ context.profile ∨ (context.profile.length : ℤ) = profileLimit ∧
      ∀ memory ∈ context.profile, r.updatedAt ≤ memory.updatedAt

/-! ## Fairness -/

/-- A fusion is fair: it lists what is ranked, once, whatever the order of the rankings, and it
keeps what they agree on. -/
structure FusesFairly (k : ℕ) (rankedIds : List (List UUID)) : Prop where
  nodup : (reciprocalRankFusion k rankedIds).Nodup
  mem : ∀ id, id ∈ reciprocalRankFusion k rankedIds ↔ ∃ ranked ∈ rankedIds, id ∈ ranked
  perm : ∀ rankedIds', rankedIds'.Perm rankedIds →
    reciprocalRankFusion k rankedIds' = reciprocalRankFusion k rankedIds
  agreed : ∀ x y, (∃ ranked ∈ rankedIds, y ∈ ranked) →
    (∀ ranked ∈ rankedIds, y ∈ ranked → Precedes x y ranked) →
      Precedes x y (reciprocalRankFusion k rankedIds)

/-- All Memories that a search ranks. -/
def rankedIds (q : Option (MemorySearch δ)) (t : Table Memory) : List UUID :=
  (q.elim [] fun q => MemoryRepository.ranking ilike q .active t).map Memory.id

/-- A search is fair: it finds different Memories, no more than asked for, and an id comes behind
every one that precedes it in each of the two rankings that it is in. -/
structure SearchesFairly (q : MemorySearch δ) (limit candidateMultiplier : ℕ)
    (view : ℕ → Table Memory) : Prop where
  length_le : (hybridSearchMemories ilike q limit candidateMultiplier view).length ≤ limit
  distinct : ((hybridSearchMemories ilike q limit candidateMultiplier view).map Memory.id).Nodup
  agreed : ∀ x y, y ∈ (hybridSearchMemories ilike q limit candidateMultiplier view).map Memory.id →
    (y ∈ rankedIds ilike q.lexical (view 0) ∨ y ∈ rankedIds ilike q.vector (view 1)) →
    (y ∈ rankedIds ilike q.lexical (view 0) → Precedes x y (rankedIds ilike q.lexical (view 0))) →
    (y ∈ rankedIds ilike q.vector (view 1) → Precedes x y (rankedIds ilike q.vector (view 1))) →
      Precedes x y ((hybridSearchMemories ilike q limit candidateMultiplier view).map Memory.id)

end Search

end Memories
