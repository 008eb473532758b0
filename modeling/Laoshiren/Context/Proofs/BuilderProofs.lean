import Laoshiren.Context.Builder
import Laoshiren.Context.Proofs.SectionProofs

/-!
# Proofs: what a context is made of

The recent messages are the end of the thread and the summary is about the rest. Each part of the
context takes no more than what is left of the budget when its turn comes, so that the whole is within
the total, or is no more than the recent messages and the summary.
-/

namespace Context

open AgentContextBuilder

variable {b : AgentContextBuilder} {py : Interpreter}

/-! ## Messages -/

/-- The characters of the contents of messages. -/
def contentCharacters (messages : List ContextMessage) : ℕ :=
  (messages.map fun message => message.content.length).sum

/-- The loop takes messages from the newest on, at least one, and no more than their budget unless it
takes the newest one only. -/
theorem selectRecent_spec (selected : List ContextMessage) (newestFirst : List ContextMessage)
    (hsmall : contentCharacters selected ≤ b.recentMessageCharacters ∨ selected.length ≤ 1) :
    ∃ omitted taken, newestFirst.reverse = omitted ++ taken ∧
      b.selectRecent selected (contentCharacters selected) newestFirst = taken ++ selected ∧
      (newestFirst ≠ [] → taken ++ selected ≠ []) ∧
      (contentCharacters (taken ++ selected) ≤ b.recentMessageCharacters ∨
        (taken ++ selected).length ≤ 1) := by
  induction newestFirst generalizing selected with
  | nil => exact ⟨[], [], rfl, rfl, fun h => absurd rfl h, hsmall⟩
  | cons message older ih =>
    unfold selectRecent
    split
    · rename_i hstop
      exact ⟨(message :: older).reverse, [], (List.append_nil _).symm, rfl, fun _ => hstop.1, hsmall⟩
    · rename_i hgoes
      have hused : contentCharacters selected + message.content.length =
          contentCharacters (message :: selected) := by
        simp only [contentCharacters, List.map_cons, List.sum_cons]
        omega
      have hsmall' : contentCharacters (message :: selected) ≤ b.recentMessageCharacters ∨
          (message :: selected).length ≤ 1 := by
        by_cases hempty : selected = []
        · right
          rw [hempty]
          exact le_rfl
        · left
          by_contra hexceeds
          exact hgoes ⟨hempty, Or.inr (by omega)⟩
      rw [hused]
      obtain ⟨omitted, taken, hsplit, hresult, hnonempty, hbound⟩ := ih (message :: selected) hsmall'
      refine ⟨omitted, taken ++ [message], ?_, ?_, fun _ => by simp, ?_⟩
      · rw [List.reverse_cons, hsplit, List.append_assoc]
      · rw [hresult, List.append_assoc, List.singleton_append]
      · rw [List.append_assoc, List.singleton_append]
        exact hbound

/-- The messages of a thread are the omitted ones and then the recent ones. -/
theorem recentMessages_spec (b : AgentContextBuilder) (messages : List ContextMessage) :
    ∃ omitted recent, messages = omitted ++ recent ∧
      b.recentMessages messages = recent.map ContextMessage.recent ∧
      (messages ≠ [] → recent ≠ []) ∧
      (contentCharacters recent ≤ b.recentMessageCharacters ∨ recent.length ≤ 1) := by
  obtain ⟨omitted, recent, hsplit, hresult, hnonempty, hbound⟩ :=
    selectRecent_spec (b := b) [] messages.reverse (Or.inr (Nat.zero_le _))
  rw [List.reverse_reverse] at hsplit
  rw [List.append_nil] at hresult hnonempty hbound
  refine ⟨omitted, recent, hsplit, ?_, fun h => hnonempty (by simpa using h), hbound⟩
  have hzero : contentCharacters [] = 0 := rfl
  rw [hzero] at hresult
  rw [recentMessages, hresult]

/-- The messages that are summed up are the ones before the recent ones. -/
theorem omittedMessages_eq {messages omitted recent : List ContextMessage}
    (hids : (messages.map ContextMessage.id).Nodup) (hsplit : messages = omitted ++ recent)
    (hrecent : b.recentMessages messages = recent.map ContextMessage.recent) :
    b.omittedMessages messages = omitted := by
  have hidsRecent : (b.recentMessages messages).map RecentMessage.id =
      recent.map fun message => message.id.str := by
    rw [hrecent, List.map_map]
    rfl
  unfold omittedMessages
  rw [hidsRecent, hsplit, List.filter_append]
  rw [hsplit, List.map_append] at hids
  have hdistinct := (List.nodup_append.mp hids).2.2
  have hkept : omitted.filter (fun message => message.id.str ∉ recent.map fun m => m.id.str) =
      omitted := by
    refine List.filter_eq_self.mpr fun message hmessage => decide_eq_true fun hmem => ?_
    obtain ⟨other, hother, hsame⟩ := List.mem_map.mp hmem
    exact hdistinct message.id (List.mem_map_of_mem hmessage) other.id (List.mem_map_of_mem hother)
      (UUID.str_injective hsame).symm
  have hdropped : recent.filter (fun message => message.id.str ∉ recent.map fun m => m.id.str) =
      [] := by
    refine List.filter_eq_nil_iff.mpr fun message hmessage => ?_
    simpa using ⟨message, hmessage, rfl⟩
  rw [hkept, hdropped, List.append_nil]

/-! ## The summary -/

/-- The lines of a summary are within its budget, with a line break after each but the last. -/
theorem summaryLines_le (count used : ℕ) (messages : List ContextMessage) :
    b.summaryLines count used messages = [] ∨
      used + ((b.summaryLines count used messages).map fun line => line.length + 1).sum ≤
        b.summaryCharacters + 1 := by
  induction messages generalizing used with
  | nil => exact Or.inl rfl
  | cons message messages ih =>
    unfold summaryLines
    dsimp only
    split
    · exact Or.inl rfl
    · rename_i hfits
      right
      rw [List.map_cons, List.sum_cons]
      rcases ih (used + (b.summaryLine count message).length + 1) with hnil | hle
      · rw [hnil]
        simp only [List.map_nil, List.sum_nil]
        omega
      · omega

/-- The length of lines that are put together. -/
theorem length_intercalate_newline (lines : List String) :
    ("\n".intercalate lines).length = (lines.map fun line => line.length + 1).sum - 1 := by
  have hlist : ∀ parts : List (List Char), (['\n'].intercalate parts).length =
      (parts.map fun part => part.length + 1).sum - 1 := by
    intro parts
    induction parts with
    | nil => rfl
    | cons part parts ih =>
      by_cases hnil : parts = []
      · rw [hnil, List.intercalate_singleton]
        simp
      · rw [List.intercalate_cons_of_ne_nil hnil, List.length_append, List.length_append, ih,
          List.map_cons, List.sum_cons]
        have hpos : 1 ≤ (parts.map fun part => part.length + 1).sum := by
          obtain ⟨first, rest, rfl⟩ := List.exists_cons_of_ne_nil hnil
          rw [List.map_cons, List.sum_cons]
          omega
        simp only [List.length_singleton]
        omega
  rw [← String.length_toList, String.toList_intercalate]
  have hsep : "\n".toList = ['\n'] := rfl
  rw [hsep, hlist, List.map_map]
  rfl

theorem summarize_length_le (messages : List ContextMessage) :
    (b.summarize messages).length ≤ b.summaryCharacters := by
  unfold summarize
  split
  · exact Nat.zero_le _
  · rw [length_intercalate_newline]
    rcases summaryLines_le (b := b) messages.length 0 messages with hnil | hle
    · rw [hnil]
      exact Nat.zero_le _
    · omega

/-! ## Memory and sources -/

variable (py) in
theorem trimGroup_spec (remaining : ℕ) (items : List Json) :
    ((trimGroup py remaining items).1.map (memoryCost py)).sum + (trimGroup py remaining items).2 =
      remaining := by
  induction items generalizing remaining with
  | nil => simp [trimGroup]
  | cons item items ih =>
    cases item with
    | obj fields =>
      unfold trimGroup
      dsimp only
      split
      · simp
      · rename_i hfits
        have hrest := ih (remaining - memoryCost py fields)
        simp only [List.map_cons, List.sum_cons]
        omega
    | null | bool _ | num _ | str _ | arr _ => exact ih remaining

theorem measureMemory_trimMemory_le (value : Dict) (budget : ℕ) :
    measureMemory py (trimMemory py value budget) ≤ budget := by
  unfold measureMemory trimMemory
  dsimp only
  rw [List.map_append, List.sum_append]
  have hprofile := trimGroup_spec py budget
    (((value.get "profile").bind Json.asList?).getD [])
  have hrelevant := trimGroup_spec py
    (trimGroup py budget (((value.get "profile").bind Json.asList?).getD [])).2
    (((value.get "relevant").bind Json.asList?).getD [])
  omega

theorem cut_length_le (text : String) (n : ℕ) : (cut text n).length ≤ n := by
  unfold cut
  rw [String.length_ofList, List.length_take]
  exact Nat.min_le_left _ _

theorem measureSources_trimSources_le (remaining : ℕ) (items : List SourceItem) :
    measureSources (trimSources remaining items) ≤ remaining := by
  induction items generalizing remaining with
  | nil => exact Nat.zero_le _
  | cons item items ih =>
    unfold trimSources
    split
    · exact Nat.zero_le _
    dsimp only
    split
    · exact ih remaining
    · have hcut := cut_length_le item.text remaining
      have hrest := ih (remaining - (cut item.text remaining).length)
      unfold measureSources at hrest ⊢
      rw [List.map_cons, List.sum_cons]
      show (cut item.text remaining).length + _ ≤ remaining
      omega

/-! ## The whole context -/

theorem recentCharacters_build (messages recent : List ContextMessage) (parts : ContextParts)
    (hrecent : b.recentMessages messages = recent.map ContextMessage.recent) :
    (b.build py messages parts).recentCharacters = contentCharacters recent := by
  show ((b.recentMessages messages).map fun item => item.content.length).sum = _
  rw [hrecent, List.map_map]
  rfl

/-- Memory, sources and attachments take no more than what the recent messages and the summary leave. -/
theorem characters_build_le (messages : List ContextMessage) (parts : ContextParts) :
    (b.build py messages parts).characters py ≤
      max b.totalCharacters ((b.build py messages parts).recentCharacters +
        (b.build py messages parts).prefetchedState.threadSummary.length) := by
  unfold AgentContext.characters
  set context := b.build py messages parts with hcontext
  have hmemory : measureMemory py context.prefetchedState.memoryContext ≤
      b.totalCharacters -
        (context.recentCharacters + context.prefetchedState.threadSummary.length) :=
    (measureMemory_trimMemory_le _ _).trans (Nat.min_le_right _ _)
  have hsources : measureSources context.prefetchedState.sourceContext ≤
      b.totalCharacters -
        (context.recentCharacters + context.prefetchedState.threadSummary.length) -
        measureMemory py context.prefetchedState.memoryContext :=
    (measureSources_trimSources_le _ _).trans (Nat.min_le_right _ _)
  have hattachments : measureSources context.prefetchedState.attachmentContext ≤
      b.totalCharacters -
        (context.recentCharacters + context.prefetchedState.threadSummary.length) -
        measureMemory py context.prefetchedState.memoryContext -
        measureSources context.prefetchedState.sourceContext :=
    (measureSources_trimSources_le _ _).trans (Nat.min_le_right _ _)
  omega

/-- The recent messages of a context are the last ones of the thread, with the newest one among them, and
the summary is about all the others and within its budget. The recent messages are within their budget
unless they are the newest one alone. All contents together are within the total, or no more than the
recent messages and the summary. -/
theorem build_partitions_within (b : AgentContextBuilder) (py : Interpreter)
    (messages : List ContextMessage) (parts : ContextParts)
    (hids : (messages.map ContextMessage.id).Nodup) :
    let context := b.build py messages parts
    (∃ omitted recent, messages = omitted ++ recent ∧
      context.messages = recent.map ContextMessage.recent ∧
      (∀ newest ∈ messages.getLast?, newest ∈ recent) ∧
      context.prefetchedState.threadSummary = b.summarize omitted ∧
      context.prefetchedState.contextStats.summarizedMessageCount = omitted.length ∧
      (context.recentCharacters ≤ b.recentMessageCharacters ∨ recent.length ≤ 1)) ∧
    context.prefetchedState.threadSummary.length ≤ b.summaryCharacters ∧
    context.characters py ≤ max b.totalCharacters
      (context.recentCharacters + context.prefetchedState.threadSummary.length) := by
  dsimp only
  refine ⟨?_, summarize_length_le _, characters_build_le messages parts⟩
  obtain ⟨omitted, recent, hsplit, hrecent, hnonempty, hbound⟩ := recentMessages_spec b messages
  have homitted := omittedMessages_eq hids hsplit hrecent
  refine ⟨omitted, recent, hsplit, hrecent, fun newest hnewest => ?_, congrArg b.summarize homitted,
    congrArg List.length homitted, ?_⟩
  · have hmessages : messages ≠ [] := by
      rintro rfl
      cases hnewest
    rw [hsplit, List.getLast?_append_of_ne_nil _ (hnonempty hmessages)] at hnewest
    exact List.mem_of_getLast? hnewest
  · rw [recentCharacters_build messages recent parts hrecent]
    exact hbound

/-- A context with the newest message only. -/
def newestOnly : AgentContextBuilder := { recentMessageCount := 1 }

/-- A question and its answer. -/
def question : List ContextMessage := [⟨1, .user, "什么时候搬家？", none⟩, ⟨2, .assistant, "九月一日。", none⟩]

theorem build_partitions_within_question :
    (newestOnly.build september question {}).messages = [⟨(2 : UUID).str, "ASSISTANT", "九月一日。", none⟩] ∧
    (newestOnly.build september question {}).characters september ≤ max 24000
      ((newestOnly.build september question {}).recentCharacters +
        (newestOnly.build september question {}).prefetchedState.threadSummary.length) :=
  ⟨by decide +kernel, (build_partitions_within newestOnly september question {} (by decide)).2.2⟩

end Context
