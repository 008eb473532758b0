import Laoshiren.Agent.DecisionParser

/-!
# Proofs: what becomes of the reply of a model

Every reply is read as the decision that it names, or turned down with an error that is retried, but for
the replies that only the decision itself checks: a response of blanks, and a call of a tool without a
name.
-/

namespace Agent

open Raise

variable {py : Builtins} {availableTools : List String} {value : Json} {fields : Dict}
  {d : ExecutiveDecision} {error : AgentError}

/-! ## The steps of the parser -/

theorem ofText_eq_some {text : String} {kind : DecisionKind} :
    DecisionKind.ofText text = some kind ↔ text = kind.value := by
  constructor
  · intro h
    have hvalue := List.find?_some h
    exact (of_decide_eq_true hvalue).symm
  · rintro rfl
    cases kind <;> rfl

/-- A kind is read if and only if the reply is of this kind. -/
theorem kind_eq_some {kind : DecisionKind} :
    ((fields.get "kind").map py.str).bind DecisionKind.ofText = some kind ↔
      IsKind py fields kind := by
  unfold IsKind
  constructor
  · intro h
    obtain ⟨text, htext, hkind⟩ := Option.bind_eq_some_iff.mp h
    rw [htext, ofText_eq_some.mp hkind]
  · intro h
    rw [h, Option.bind_some]
    exact ofText_eq_some.mpr rfl

/-- A call is read if and only if the object lists it. -/
theorem parseCall_eq_ok {call : ToolCallSpec} :
    parseCall py availableTools fields = .ok call ↔ Lists py availableTools (.obj fields) call := by
  unfold parseCall
  simp only [bind_eq_ok, ensure_eq_ok]
  constructor
  · rintro ⟨_, havailable, h⟩
    split at h
    · rename_i arguments harguments
      obtain rfl := pure_eq_ok.mp h
      exact ⟨fields, rfl, rfl, havailable, harguments⟩
    · cases h
  · rintro ⟨fields', hfields, hname, havailable, harguments⟩
    obtain rfl : fields = fields' := Json.obj.inj hfields
    rw [hname] at havailable
    refine ⟨(), havailable, ?_⟩
    rw [harguments, ← hname]
    rfl

/-- A call that is not read is turned down with an error that may be retried. -/
theorem parseCall_retryable (h : parseCall py availableTools fields = .error error) :
    error.retryable = true := by
  unfold parseCall at h
  rcases bind_eq_error.mp h with hensure | ⟨_, _, h⟩
  · rw [← (ensure_eq_error.mp hensure).1]
    rfl
  · split at h
    · cases h
    · obtain rfl : malformed "Model tool arguments must be an object." = error := Except.error.inj h
      rfl

theorem parseCalls_eq_ok {entries : List Json} {calls : List ToolCallSpec}
    (h : parseCalls py availableTools entries = .ok calls) :
    List.Forall₂ (Lists py availableTools) entries calls := by
  induction entries generalizing calls with
  | nil =>
    obtain rfl := pure_eq_ok.mp h
    exact .nil
  | cons entry entries ih =>
    cases entry with
    | obj fields =>
      simp only [parseCalls, bind_eq_ok, pure_eq_ok] at h
      obtain ⟨call, hcall, calls, hcalls, rfl⟩ := h
      exact .cons (parseCall_eq_ok.mp hcall) (ih hcalls)
    | null | bool _ | num _ | str _ | arr _ => cases h

theorem parseCalls_retryable {entries : List Json}
    (h : parseCalls py availableTools entries = .error error) : error.retryable = true := by
  induction entries with
  | nil => cases h
  | cons entry entries ih =>
    cases entry with
    | obj fields =>
      unfold parseCalls at h
      rcases bind_eq_error.mp h with hcall | ⟨call, _, h⟩
      · exact parseCall_retryable hcall
      · rcases bind_eq_error.mp h with hcalls | ⟨calls, _, h⟩
        · exact ih hcalls
        · cases h
    | null | bool _ | num _ | str _ | arr _ =>
      obtain rfl : malformed "Each parallel tool entry must be an object." = error :=
        Except.error.inj h
      rfl

/-- The decision that is made carries what it is made of. -/
theorem newDecision_eq_ok {kind : DecisionKind} {content toolName : Option String} {arguments : Dict}
    {calls : List ToolCallSpec} {prompt : Option Dict}
    (h : newDecision kind content toolName arguments calls prompt = .ok d) :
    d.kind = kind ∧ d.content = content ∧ d.toolName = toolName ∧ d.toolArguments = arguments ∧
      d.toolCalls = calls ∧ d.prompt = prompt := by
  unfold newDecision at h
  split at h
  · cases h
  split at h
  · cases h
  split at h
  · cases h
  split at h
  · cases h
  rw [← Except.ok.inj h]
  exact ⟨rfl, rfl, rfl, rfl, rfl, rfl⟩

/-- No decision is made of a blank response, of a question without a prompt and of a call without a name
or without entries; that error is not retried. -/
theorem newDecision_eq_error {kind : DecisionKind} {content toolName : Option String}
    {arguments : Dict} {calls : List ToolCallSpec} {prompt : Option Dict}
    (h : newDecision kind content toolName arguments calls prompt = .error error) :
    error.retryable = false ∧
      (kind = .respond ∧ content.getD "" = "" ∨ kind = .askUser ∧ prompt = none ∨
        kind = .callTool ∧ toolName.getD "" = "" ∨ kind = .callTools ∧ calls = []) := by
  unfold newDecision at h
  split at h
  · rename_i hcontent
    exact ⟨by rw [← Except.error.inj h]; rfl, Or.inl hcontent⟩
  split at h
  · rename_i hprompt
    exact ⟨by rw [← Except.error.inj h]; rfl, Or.inr (Or.inl hprompt)⟩
  split at h
  · rename_i hname
    exact ⟨by rw [← Except.error.inj h]; rfl, Or.inr (Or.inr (Or.inl hname))⟩
  split at h
  · rename_i hcalls
    exact ⟨by rw [← Except.error.inj h]; rfl, Or.inr (Or.inr (Or.inr hcalls))⟩
  · cases h

/-! ## The four kinds -/

/-- A reply is of one kind at the most. -/
theorem isKind_unique {kind kind' : DecisionKind} (h : IsKind py fields kind)
    (h' : IsKind py fields kind') : kind = kind' :=
  Option.some.inj ((kind_eq_some.mpr h).symm.trans (kind_eq_some.mpr h'))

/-- A reply that is no response is not blank. -/
theorem not_blankReply {kind : DecisionKind} (h : IsKind py fields kind) (hkind : kind ≠ .respond) :
    ¬ BlankReply py (.obj fields) := by
  rintro ⟨fields', hfields, hrespond, _⟩
  obtain rfl : fields = fields' := Json.obj.inj hfields
  exact hkind (isKind_unique h hrespond)

/-- A reply that is no single call has no name to miss. -/
theorem not_namelessCall {kind : DecisionKind} (h : IsKind py fields kind)
    (hkind : kind ≠ .callTool) : ¬ NamelessCall py availableTools (.obj fields) := by
  rintro ⟨fields', _, hfields, hcall, _⟩
  obtain rfl : fields = fields' := Json.obj.inj hfields
  exact hkind (isKind_unique h hcall)

theorem respond_iff (h : IsKind py fields .respond) :
    ReadOrRetried py availableTools (.obj fields) ↔ ¬ BlankReply py (.obj fields) := by
  have hparse : parseExecutiveDecision py (.obj fields) availableTools =
      newDecision .respond (some (Text.strip (replyText py fields))) none [] [] none := by
    unfold parseExecutiveDecision
    exact bind_of_orRaise (kind_eq_some.mpr h) _
  have hblank : BlankReply py (.obj fields) ↔ Text.strip (replyText py fields) = "" := by
    rw [Text.strip_eq_empty_iff]
    refine ⟨?_, fun hblank => ⟨fields, rfl, h, hblank⟩⟩
    rintro ⟨fields', hfields, _, hblank⟩
    obtain rfl : fields = fields' := Json.obj.inj hfields
    exact hblank
  unfold ReadOrRetried
  rw [hparse, hblank]
  cases hmade : newDecision .respond (some (Text.strip (replyText py fields))) none [] [] none with
  | ok d =>
    obtain ⟨hkind, hcontent, _⟩ := newDecision_eq_ok hmade
    have hnonempty : Text.strip (replyText py fields) ≠ "" := by
      have hresponds := d.responds hkind
      rw [hcontent] at hresponds
      exact hresponds
    refine iff_of_true (Or.inl ⟨d, rfl, fields, rfl, hkind ▸ h, ?_⟩) hnonempty
    rw [hkind]
    refine ⟨_, hcontent, rfl, ?_⟩
    rw [Bool.eq_false_iff, ← Text.strip_eq_empty_iff.ne, Text.strip_strip]
    exact hnonempty
  | error error =>
    obtain ⟨hfatal, hcases⟩ := newDecision_eq_error hmade
    refine iff_of_false ?_ ?_
    · rintro (⟨d, hd, _⟩ | ⟨error', herror, hretryable⟩)
      · cases hd
      · rw [← Except.error.inj herror, hfatal] at hretryable
        cases hretryable
    · simpa using hcases

theorem askUser_read (h : IsKind py fields .askUser) :
    ReadOrRetried py availableTools (.obj fields) := by
  unfold ReadOrRetried parseExecutiveDecision
  dsimp only
  rw [bind_of_orRaise (kind_eq_some.mpr h)]
  dsimp only
  split
  · rename_i prompt hprompt
    cases hmade : newDecision .askUser none none [] [] (some prompt) with
    | ok d =>
      obtain ⟨hkind, _, _, _, _, hmadeOf⟩ := newDecision_eq_ok hmade
      refine Or.inl ⟨d, rfl, fields, rfl, hkind ▸ h, ?_⟩
      rw [hkind]
      exact ⟨prompt, hmadeOf, hprompt⟩
    | error error =>
      have hcases := (newDecision_eq_error hmade).2
      simp at hcases
  · exact Or.inr ⟨_, rfl, rfl⟩

theorem callTools_read (h : IsKind py fields .callTools) :
    ReadOrRetried py availableTools (.obj fields) := by
  unfold ReadOrRetried parseExecutiveDecision
  dsimp only
  rw [bind_of_orRaise (kind_eq_some.mpr h)]
  dsimp only
  split
  · rename_i entry entries hentries
    cases hcalls : parseCalls py availableTools (entry :: entries) with
    | error error => exact Or.inr ⟨error, rfl, parseCalls_retryable hcalls⟩
    | ok calls =>
      have hlists := parseCalls_eq_ok hcalls
      rw [bind_of_ok rfl]
      cases hmade : newDecision .callTools none none [] calls none with
      | ok d =>
        obtain ⟨hkind, _, _, _, hmadeOf, _⟩ := newDecision_eq_ok hmade
        refine Or.inl ⟨d, rfl, fields, rfl, hkind ▸ h, ?_⟩
        rw [hkind]
        exact ⟨entry :: entries, hentries, hmadeOf ▸ hlists⟩
      | error error =>
        have hnone : calls = [] := by simpa using (newDecision_eq_error hmade).2
        rw [hnone] at hlists
        cases hlists
  · exact Or.inr ⟨_, rfl, rfl⟩

theorem callTool_iff (h : IsKind py fields .callTool) :
    ReadOrRetried py availableTools (.obj fields) ↔
      ¬ NamelessCall py availableTools (.obj fields) := by
  have hparse : parseExecutiveDecision py (.obj fields) availableTools =
      (parseCall py availableTools fields >>= fun call =>
        newDecision .callTool none (some call.toolName) call.toolArguments [] none) := by
    unfold parseExecutiveDecision
    exact bind_of_orRaise (kind_eq_some.mpr h) _
  have hnameless : NamelessCall py availableTools (.obj fields) ↔
      ∃ arguments, parseCall py availableTools fields = .ok ⟨"", arguments⟩ := by
    constructor
    · rintro ⟨_, arguments, _, _, hlists⟩
      exact ⟨arguments, parseCall_eq_ok.mpr hlists⟩
    · rintro ⟨arguments, hcall⟩
      exact ⟨fields, arguments, rfl, h, parseCall_eq_ok.mp hcall⟩
  unfold ReadOrRetried
  rw [hparse, hnameless]
  cases hcall : parseCall py availableTools fields with
  | error error =>
    exact iff_of_true (Or.inr ⟨error, rfl, parseCall_retryable hcall⟩) (by rintro ⟨_, hok⟩; cases hok)
  | ok call =>
    rw [bind_of_ok rfl]
    cases hmade : newDecision .callTool none (some call.toolName) call.toolArguments [] none with
    | ok d =>
      obtain ⟨hkind, _, hname, harguments, _⟩ := newDecision_eq_ok hmade
      refine iff_of_true (Or.inl ⟨d, rfl, fields, rfl, hkind ▸ h, ?_⟩) ?_
      · rw [hkind]
        refine ⟨call.toolName, hname, ?_⟩
        rw [harguments]
        exact parseCall_eq_ok.mp hcall
      · rintro ⟨arguments, hempty⟩
        have hcalls := d.calls hkind
        rw [hname, Except.ok.inj hempty] at hcalls
        exact hcalls rfl
    | error error =>
      obtain ⟨hfatal, hcases⟩ := newDecision_eq_error hmade
      refine iff_of_false ?_ (not_not.mpr ⟨call.toolArguments, ?_⟩)
      · rintro (⟨d, hd, _⟩ | ⟨error', herror, hretryable⟩)
        · cases hd
        · rw [← Except.error.inj herror, hfatal] at hretryable
          cases hretryable
      · have hempty : call.toolName = "" := by simpa using hcases
        rw [← hempty]

/-- Every reply is read as the decision that it names or turned down with an error that may be retried,
but for a response of blanks and a call of a tool without a name. -/
theorem readOrRetried_iff (py : Builtins) (availableTools : List String) (value : Json) :
    ReadOrRetried py availableTools value ↔
      ¬ BlankReply py value ∧ ¬ NamelessCall py availableTools value := by
  cases value with
  | obj fields =>
    cases hkind : ((Dict.get fields "kind").map py.str).bind DecisionKind.ofText with
    | none =>
      have hnone : ∀ kind, ¬ IsKind py fields kind := fun kind h => by
        rw [kind_eq_some.mpr h] at hkind
        cases hkind
      have hretry : ReadOrRetried py availableTools (.obj fields) := by
        refine Or.inr ⟨malformed "Model decision kind is invalid.", ?_, rfl⟩
        unfold parseExecutiveDecision
        dsimp only
        rw [hkind]
        rfl
      refine iff_of_true hretry ⟨?_, ?_⟩
      · rintro ⟨fields', hfields, hrespond, _⟩
        exact hnone .respond ((Json.obj.inj hfields).symm ▸ hrespond)
      · rintro ⟨fields', _, hfields, hcall, _⟩
        exact hnone .callTool ((Json.obj.inj hfields).symm ▸ hcall)
    | some kind =>
      have h := kind_eq_some.mp hkind
      cases kind with
      | respond =>
        rw [respond_iff h]
        exact (and_iff_left (not_namelessCall h (by decide))).symm
      | askUser =>
        exact iff_of_true (askUser_read h)
          ⟨not_blankReply h (by decide), not_namelessCall h (by decide)⟩
      | callTools =>
        exact iff_of_true (callTools_read h)
          ⟨not_blankReply h (by decide), not_namelessCall h (by decide)⟩
      | callTool =>
        rw [callTool_iff h]
        exact (and_iff_right (not_blankReply h (by decide))).symm
  | null | bool _ | num _ | str _ | arr _ =>
    refine iff_of_true (Or.inr ⟨_, rfl, rfl⟩) ⟨?_, ?_⟩
    · rintro ⟨_, hfields, _⟩
      cases hfields
    · rintro ⟨_, _, hfields, _⟩
      cases hfields

/-! ## The gateways -/

/-- A provider that fails with errors that may be retried only is asked until it answers or the attempts
are used up. -/
theorem retrying_spec {inner : ℕ → Except AgentError ExecutiveDecision}
    {P : ExecutiveDecision → Prop}
    (hinner : ∀ k, (∃ d, inner k = .ok d ∧ P d) ∨ ∃ error, inner k = .error error ∧
      error.retryable = true)
    (attempt : ℕ) {left : ℕ} (hleft : 0 < left) :
    (∃ d, retrying inner attempt left = .ok d ∧ P d) ∨
      ∃ error, retrying inner attempt left = .error error ∧ error.retryable = true ∧
        ∀ k, attempt ≤ k → k < attempt + left → ∃ failed, inner k = .error failed := by
  induction left generalizing attempt with
  | zero => omega
  | succ left ih =>
    unfold retrying
    rcases hinner attempt with ⟨d, hd, hP⟩ | ⟨error, herror, hretryable⟩
    · rw [hd]
      exact Or.inl ⟨d, rfl, hP⟩
    · rw [herror]
      dsimp only
      by_cases hlast : left = 0
      · rw [if_pos (Or.inr hlast)]
        refine Or.inr ⟨error, rfl, hretryable, fun k hle hlt => ⟨error, ?_⟩⟩
        obtain rfl : k = attempt := by omega
        exact herror
      · rw [if_neg (by simp [hretryable, hlast])]
        refine (ih (attempt + 1) (by omega)).imp_right ?_
        rintro ⟨last, hlastError, hlastRetryable, hall⟩
        refine ⟨last, hlastError, hlastRetryable, fun k hle hlt => ?_⟩
        by_cases hk : k = attempt
        · exact ⟨error, hk ▸ herror⟩
        · exact hall k (by omega) (by omega)

/-- The decision of a model that replies, and of a second one where it is asked. -/
def decideBy (py : Builtins) (availableTools : List String) (reply : Json) (fallback : Option Json) :
    Except AgentError ExecutiveDecision :=
  failover (parseExecutiveDecision py reply availableTools)
    (fallback.map fun other => parseExecutiveDecision py other availableTools)

/-- Two models whose replies are read or retried are a gateway whose replies are read or retried. -/
theorem decideBy_spec {reply : Json} {fallback : Option Json}
    (hreply : ReadOrRetried py availableTools reply)
    (hfallback : ∀ other ∈ fallback, ReadOrRetried py availableTools other) :
    (∃ d, decideBy py availableTools reply fallback = .ok d ∧
      ∃ value, (value = reply ∨ value ∈ fallback) ∧ NamesDecision py availableTools value d) ∨
    ∃ error, decideBy py availableTools reply fallback = .error error ∧ error.retryable = true := by
  unfold decideBy failover
  rcases hreply with ⟨d, hd, hnames⟩ | ⟨error, herror, hretryable⟩
  · rw [hd]
    exact Or.inl ⟨d, rfl, reply, Or.inl rfl, hnames⟩
  · rw [herror]
    dsimp only
    rw [if_pos hretryable]
    cases fallback with
    | none => exact Or.inr ⟨error, rfl, hretryable⟩
    | some other =>
      rcases hfallback other rfl with ⟨d, hd, hnames⟩ | hretry
      · exact Or.inl ⟨d, hd, other, Or.inr rfl, hnames⟩
      · exact Or.inr hretry

/-- A reply is read as the decision that it names or turned down with an error that may be retried
exactly if it is no response of blanks and no call of a tool without a name. Where no reply is one of
these, the gateway answers with a decision that a reply names, or fails after its last attempt with an
error that may be retried. -/
theorem malformed_replies_retried (py : Builtins) (availableTools : List String) :
    (∀ value, ReadOrRetried py availableTools value ↔
      ¬ BlankReply py value ∧ ¬ NamelessCall py availableTools value) ∧
    ∀ (replies : ℕ → Json) (fallbacks : ℕ → Option Json) (maxAttempts : ℕ), 0 < maxAttempts →
      (∀ k value, value = replies k ∨ value ∈ fallbacks k →
        ¬ BlankReply py value ∧ ¬ NamelessCall py availableTools value) →
      (∃ d, retrying (fun k => decideBy py availableTools (replies k) (fallbacks k)) 1 maxAttempts =
          .ok d ∧ ∃ value, NamesDecision py availableTools value d) ∨
      ∃ error, retrying (fun k => decideBy py availableTools (replies k) (fallbacks k)) 1 maxAttempts =
          .error error ∧ error.retryable = true ∧
        ∀ k, 1 ≤ k → k < 1 + maxAttempts →
          ∃ failed, decideBy py availableTools (replies k) (fallbacks k) = .error failed := by
  refine ⟨readOrRetried_iff py availableTools, fun replies fallbacks maxAttempts hpos hgood => ?_⟩
  have hread : ∀ k value, value = replies k ∨ value ∈ fallbacks k →
      ReadOrRetried py availableTools value := fun k value hvalue =>
    (readOrRetried_iff py availableTools value).mpr (hgood k value hvalue)
  refine retrying_spec (fun k => ?_) 1 hpos
  refine (decideBy_spec (hread k _ (Or.inl rfl)) fun other hother =>
    hread k other (Or.inr hother)).imp_left ?_
  rintro ⟨d, hd, value, _, hnames⟩
  exact ⟨d, hd, value, hnames⟩

/-- A response of blanks raises an error that no gateway retries, and the first attempt is the last. -/
theorem blank_reply_not_retried :
    let reply : Json := .obj [("content", .str " "), ("kind", .str "respond")]
    let py : Builtins := ⟨fun _ => none, fun _ => ""⟩
    parseExecutiveDecision py reply [] =
        .error (.valueError "A response decision requires content.") ∧
      ¬ ReadOrRetried py [] reply ∧
      retrying (fun k => decideBy py [] (if k = 1 then reply else
          .obj [("content", .str "tea"), ("kind", .str "respond")]) none) 1 3 =
        .error (.valueError "A response decision requires content.") := by
  have hparse : parseExecutiveDecision ⟨fun _ => none, fun _ => ""⟩
      (.obj [("content", .str " "), ("kind", .str "respond")]) [] =
        .error (.valueError "A response decision requires content.") := by rfl
  refine ⟨hparse, ?_, rfl⟩
  rintro (⟨d, hd, _⟩ | ⟨error, herror, hretryable⟩)
  · rw [hparse] at hd
    cases hd
  · rw [hparse] at herror
    rw [← Except.error.inj herror] at hretryable
    cases hretryable

end Agent
