import TTSR.Foundation.Tickets
import TTSR.Evaluator.Server

/-!
# Concurrent evaluations

A call of `generate` keeps whatever its engine steps return. If none of that
belongs to another call, every client is answered from its own rollouts, in any
interleaving (`answered_of_uncrossed`). This is so in particular if calls of
`generate` never overlap (`answered_of_serial`).

The server does nothing to keep the calls apart, and two clients are enough for
one to be refused or to be given the evaluation of the other.
-/

namespace TTSR.Evaluator

open TTSR.Foundation TTSR.Reward

variable {note : String} {s s' : State} {t u : ℕ}

/-! ## Submissions and outputs of a client -/

/-- The prompts of client `t`, in the order of their submission. -/
def submissionsOf (s : State) (t : ℕ) : List EngineRequest :=
  s.submissions.filter (·.client = t)

/-- The outputs for client `t`, in the order in which they were generated. -/
def generatedOf (s : State) (t : ℕ) : List RequestOutput :=
  s.generated.filter (·.request.client = t)

/-- What a call has submitted: the indices and prompts of its questions. -/
def sent (note : String) (call : Call) : List (ℕ × String) :=
  (call.questions.take call.submitted).mapIdx fun i question =>
    (i, studentPrompt question note)

/-- The POST of a client passed the checks of `do_POST` with these questions. -/
def Asked (s : State) (t : ℕ) (questions : List String) : Prop :=
  ∃ request, s.posted t = some request ∧ doPost request = .ok questions

/-- What is known of the thread of a client, by phase. -/
def ThreadInv (note : String) (s : State) (t : ℕ) : Prop :=
  match s.phase t with
  | .idle => s.posted t = none ∧ submissionsOf s t = []
  | .evaluating questions => Asked s t questions ∧ submissionsOf s t = []
  | .generating call => Asked s t call.questions ∧
      call.submitted ≤ call.questions.length ∧
      (submissionsOf s t).map (fun r => (r.index, r.prompt)) = sent note call
  | .replied _ => s.posted t ≠ none

/-- The bookkeeping of the engine. -/
structure EngineInv (s : State) : Prop where
  ids : s.submissions.Pairwise (·.requestId < ·.requestId)
  bound : ∀ r ∈ s.submissions, r.requestId < s.nextId
  split : (s.unfinished ++ s.generated.map (·.request)).Perm s.submissions
  keys : (s.submissions.map fun r => (r.client, r.index)).Nodup

structure Inv (note : String) (s : State) : Prop where
  engine : EngineInv s
  thread : ∀ t, ThreadInv note s t

theorem threadInv_idle (h : s.phase t = .idle) :
    ThreadInv note s t ↔ s.posted t = none ∧ submissionsOf s t = [] := by
  rw [ThreadInv, h]

theorem threadInv_evaluating {questions : List String}
    (h : s.phase t = .evaluating questions) :
    ThreadInv note s t ↔
      Asked s t questions ∧ submissionsOf s t = [] := by
  rw [ThreadInv, h]

theorem threadInv_generating {call : Call} (h : s.phase t = .generating call) :
    ThreadInv note s t ↔ Asked s t call.questions ∧
      call.submitted ≤ call.questions.length ∧
      (submissionsOf s t).map (fun r => (r.index, r.prompt)) =
        sent note call := by
  rw [ThreadInv, h]

theorem threadInv_replied {reply : Reply} (h : s.phase t = .replied reply) :
    ThreadInv note s t ↔ s.posted t ≠ none := by
  rw [ThreadInv, h]

/-- A step of another thread leaves a thread alone. -/
theorem ThreadInv.frame (h : ThreadInv note s u) (hphase : s'.phase u = s.phase u)
    (hposted : s'.posted u = s.posted u)
    (hsub : submissionsOf s' u = submissionsOf s u) : ThreadInv note s' u := by
  unfold ThreadInv Asked at *
  rw [hphase, hposted, hsub]
  exact h

@[simp] theorem setPhase_self (s : State) (t : ℕ) (p : Phase) :
    (s.setPhase t p).phase t = p := by
  simp [State.setPhase]

theorem setPhase_of_ne (s : State) (p : Phase) (h : u ≠ t) :
    (s.setPhase t p).phase u = s.phase u := by
  simp [State.setPhase, h]

/-- The engine does not look at the threads. -/
theorem EngineInv.setPhase (h : EngineInv s) (t : ℕ) (p : Phase) :
    EngineInv (s.setPhase t p) := ⟨h.ids, h.bound, h.split, h.keys⟩

/-! ## Every step keeps the invariant -/

theorem initial_inv : Inv note initial where
  engine := ⟨.nil, by simp [initial], .nil, .nil⟩
  thread := fun _ => ⟨rfl, rfl⟩

/-- A client that has not posted has submitted nothing. -/
theorem Inv.submissionsOf_of_not_posted (h : Inv note s)
    (hposted : s.posted t = none) : submissionsOf s t = [] := by
  have ht := h.thread t
  cases hphase : s.phase t with
  | idle => exact ((threadInv_idle hphase).mp ht).2
  | evaluating questions => exact ((threadInv_evaluating hphase).mp ht).2
  | generating call =>
      obtain ⟨⟨request, hsome, -⟩, -⟩ := (threadInv_generating hphase).mp ht
      rw [hposted] at hsome
      cases hsome
  | replied reply => exact absurd hposted ((threadInv_replied hphase).mp ht)

theorem post_inv (h : Inv note s) {request : Request}
    (hs : post s t request = some s') : Inv note s' := by
  obtain ⟨hposted, rfl⟩ := post_spec hs
  refine ⟨⟨h.engine.ids, h.engine.bound, h.engine.split, h.engine.keys⟩, ?_⟩
  intro u
  by_cases hut : u = t
  · subst hut
    have hfresh := h.submissionsOf_of_not_posted hposted
    have hself : Function.update s.posted u (some request) u = some request :=
      Function.update_self _ _ _
    cases hpost : doPost request with
    | ok questions =>
        rw [afterChecks, threadInv_evaluating (setPhase_self _ u _)]
        exact ⟨⟨request, hself, hpost⟩, hfresh⟩
    | error reply =>
        rw [afterChecks, threadInv_replied (setPhase_self _ u _)]
        intro hnone
        cases hself.symm.trans hnone
  · refine (h.thread u).frame ?_ (Function.update_of_ne hut _ _) rfl
    exact setPhase_of_ne _ _ hut

theorem generate_inv (h : Inv note s) (hs : generate s t = some s') :
    Inv note s' := by
  obtain ⟨questions, hphase, rfl⟩ := generate_spec hs
  refine ⟨⟨h.engine.ids, h.engine.bound, h.engine.split, h.engine.keys⟩, ?_⟩
  intro u
  by_cases hut : u = t
  · subst hut
    obtain ⟨hasked, hnil⟩ := (threadInv_evaluating hphase).mp (h.thread u)
    rw [threadInv_generating (setPhase_self s u _)]
    refine ⟨hasked, Nat.zero_le _, ?_⟩
    have hnil' : submissionsOf (s.setPhase u (.generating ⟨questions, 0, []⟩)) u
        = [] := hnil
    simp [hnil', sent]
  · exact (h.thread u).frame (setPhase_of_ne s _ hut) rfl rfl

/-- The engine takes a prompt with the next id and a new key. -/
theorem EngineInv.addRequest (h : EngineInv s) (r : EngineRequest)
    (hid : r.requestId = s.nextId)
    (hkey : ∀ r' ∈ submissionsOf s r.client, r'.index ≠ r.index) :
    EngineInv (s.addRequest r) := by
  constructor
  case ids =>
    rw [State.addRequest, List.pairwise_append]
    refine ⟨h.ids, List.pairwise_singleton _ _, ?_⟩
    intro r' hr' r'' hr''
    rw [List.mem_singleton.mp hr'', hid]
    exact h.bound r' hr'
  case bound =>
    intro r' hr'
    rcases List.mem_append.mp hr' with hr' | hr'
    · exact Nat.lt_succ_of_lt (h.bound r' hr')
    · rw [List.mem_singleton.mp hr', hid]
      exact Nat.lt_succ_self _
  case split =>
    have hlast : (s.unfinished ++ [r] ++ s.generated.map (·.request)).Perm
        (s.unfinished ++ s.generated.map (·.request) ++ [r]) := by
      rw [List.append_assoc, List.append_assoc]
      exact List.Perm.append_left _ List.perm_append_comm
    exact hlast.trans (h.split.append_right [r])
  case keys =>
    rw [State.addRequest, List.map_append, List.nodup_append]
    refine ⟨h.keys, List.nodup_singleton _, ?_⟩
    rintro k hk k' hk' rfl
    obtain ⟨r', hr', heq⟩ := List.mem_map.mp hk
    rw [List.map_singleton, List.mem_singleton] at hk'
    obtain ⟨hclient, hindex⟩ := Prod.mk.inj (heq.trans hk')
    apply hkey r' _ hindex
    exact List.mem_filter.mpr ⟨hr', by simpa using hclient⟩

theorem submit_inv (h : Inv note s) (hs : submit note s t = some s') :
    Inv note s' := by
  obtain ⟨call, question, hphase, hquestion, rfl⟩ := submit_spec hs
  obtain ⟨hasked, -, hsent⟩ := (threadInv_generating hphase).mp (h.thread t)
  have hlt : call.submitted < call.questions.length :=
    (List.getElem?_eq_some_iff.mp hquestion).1
  refine ⟨(h.engine.addRequest _ rfl ?_).setPhase _ _, ?_⟩
  · -- the indices submitted so far are smaller
    intro r' hr' heq
    have hmem : (r'.index, r'.prompt) ∈ sent note call := by
      rw [← hsent]
      exact List.mem_map.mpr ⟨r', hr', rfl⟩
    obtain ⟨i, hi, hsome⟩ := List.mem_mapIdx.mp hmem
    have hindex := congrArg Prod.fst hsome
    simp at hi hindex heq
    omega
  · intro u
    by_cases hut : u = t
    · subst hut
      rw [threadInv_generating (setPhase_self _ u _)]
      refine ⟨hasked, hlt, ?_⟩
      simp only [submissionsOf, State.setPhase, State.addRequest,
        List.filter_append, List.map_append] at hsent ⊢
      rw [hsent]
      simp [sent, List.take_add_one, hquestion, List.mapIdx_append]
      omega
    · refine (h.thread u).frame ?_ rfl ?_
      · exact setPhase_of_ne (s.addRequest _) _ hut
      · simp [submissionsOf, State.setPhase, State.addRequest, Ne.symm hut]

theorem EngineInv.submissions_nodup (h : EngineInv s) : s.submissions.Nodup :=
  List.Nodup.of_map _ h.keys

/-- What an engine step returns leaves the queue. -/
theorem EngineInv.finish (h : EngineInv s) {finished : List RequestOutput}
    (hfinished : Finishes s finished) : EngineInv (s.finish finished) := by
  obtain ⟨hnd, hmem⟩ := hfinished
  refine ⟨h.ids, h.bound, ?_, h.keys⟩
  have hunfinished : s.unfinished.Nodup :=
    (List.nodup_append.mp (h.split.nodup_iff.mpr h.submissions_nodup)).1
  have hout := filter_notMem_append_perm hunfinished hnd (by
    intro r hr
    obtain ⟨o, ho, rfl⟩ := List.mem_map.mp hr
    exact hmem o ho)
  have hswap : ((s.finish finished).unfinished ++
      (s.finish finished).generated.map (·.request)).Perm
      ((s.finish finished).unfinished ++ finished.map (·.request) ++
        s.generated.map (·.request)) := by
    rw [List.append_assoc, State.finish, List.map_append]
    exact List.Perm.append_left _ List.perm_append_comm
  exact hswap.trans ((hout.append_right _).trans h.split)

theorem engineStep_inv (h : Inv note s) {finished : List RequestOutput}
    (hs : engineStep s t finished = some s') : Inv note s' := by
  obtain ⟨call, hphase, -, hready, rfl⟩ := engineStep_spec hs
  refine ⟨(h.engine.finish hready).setPhase _ _, ?_⟩
  intro u
  by_cases hut : u = t
  · subst hut
    rw [threadInv_generating (setPhase_self _ u _)]
    exact (threadInv_generating hphase).mp (h.thread u)
  · refine (h.thread u).frame ?_ rfl rfl
    exact setPhase_of_ne (s.finish finished) _ hut

theorem collect_inv (h : Inv note s) (hs : collect s t = some s') :
    Inv note s' := by
  obtain ⟨call, hphase, -, -, rfl⟩ := collect_spec hs
  refine ⟨h.engine.setPhase _ _, ?_⟩
  intro u
  by_cases hut : u = t
  · subst hut
    obtain ⟨⟨request, hposted, -⟩, -⟩ :=
      (threadInv_generating hphase).mp (h.thread u)
    rw [threadInv_replied (setPhase_self s u _)]
    intro hnone
    have hsome : s.posted u = none := hnone
    rw [hposted] at hsome
    cases hsome
  · exact (h.thread u).frame (setPhase_of_ne s _ hut) rfl rfl

theorem step_inv (h : Inv note s) {e : Event} (hs : step note s e = some s') :
    Inv note s' := by
  cases e with
  | post t request => exact post_inv h hs
  | generate t => exact generate_inv h hs
  | submit t => exact submit_inv h hs
  | engineStep t finished => exact engineStep_inv h hs
  | collect t => exact collect_inv h hs

theorem reachable_inv {ok : State → Event → Prop}
    (h : (machine note).ReachableIf ok s) : Inv note s :=
  Machine.ReachableIf.invariant (I := Inv note) initial_inv
    (fun _ _ _ _ hi _ hs => step_inv hi hs) h

/-! ## The rollouts of a question -/

/-- The engine finishes a prompt once. -/
theorem EngineInv.rollouts_eq (h : EngineInv s) {o : RequestOutput}
    (ho : o ∈ s.generated) :
    rollouts s o.request.client o.request.index = [o] := by
  have hkeys : (s.generated.map fun o =>
      (o.request.client, o.request.index)).Nodup := by
    have hperm := (h.split.map fun r => (r.client, r.index)).nodup_iff.mpr h.keys
    rw [List.map_append, List.map_map] at hperm
    exact (List.nodup_append.mp hperm).2.1
  have halone := filter_key_eq hkeys ho
  simp only [Prod.mk.injEq] at halone
  rw [rollouts, halone]

/-- What the engine generated was submitted. -/
theorem EngineInv.submitted (h : EngineInv s) {o : RequestOutput}
    (ho : o ∈ s.generated) : o.request ∈ s.submissions := by
  apply h.split.subset
  exact List.mem_append_right _ (List.mem_map.mpr ⟨o, ho, rfl⟩)

theorem EngineInv.generatedOf_eq_nil (h : EngineInv s)
    (hnil : submissionsOf s t = []) : generatedOf s t = [] := by
  rw [generatedOf, List.filter_eq_nil_iff]
  intro o ho hclient
  have hmem : o.request ∈ submissionsOf s t :=
    List.mem_filter.mpr ⟨h.submitted ho, hclient⟩
  rw [hnil] at hmem
  cases hmem

/-- When the queue is empty, what was generated for a client is what it
submitted. -/
theorem EngineInv.drained (h : EngineInv s) (hempty : s.unfinished = []) (t : ℕ) :
    ((generatedOf s t).map (·.request)).Perm (submissionsOf s t) := by
  have hsplit := h.split
  rw [hempty, List.nil_append] at hsplit
  have hfilter := hsplit.filter (·.client = t)
  rw [List.filter_map] at hfilter
  exact hfilter

/-- An answer stays one while the others go on. -/
theorem Answered.mono {request : Request} {reply : Reply}
    (h : Answered note s t request reply) (hinv : EngineInv s')
    (hsub : s.generated ⊆ s'.generated) : Answered note s' t request reply := by
  refine ⟨?_, h.accepted⟩
  intro results hok
  obtain ⟨questions, hpost, hlen, hown⟩ := h.own results hok
  refine ⟨questions, hpost, hlen, ?_⟩
  intro i q e hq he
  obtain ⟨o, hrollouts, hprompt, heq⟩ := hown i q e hq he
  refine ⟨o, ?_, hprompt, heq⟩
  have ho : o ∈ rollouts s t i := by
    rw [hrollouts]
    exact List.mem_singleton_self o
  obtain ⟨hgen, hkey⟩ := List.mem_filter.mp ho
  obtain ⟨rfl, rfl⟩ := of_decide_eq_true hkey
  exact hinv.rollouts_eq (hsub hgen)

/-! ## Calls that keep to themselves -/

/-- The prompts an engine step finishes belong to the call that takes it. -/
def Uncrossed (_ : State) : Event → Prop
  | .engineStep t finished => ∀ o ∈ finished, o.request.client = t
  | _ => True

/-- A call has collected what was generated for it, and a reply is an answer. -/
def Kept (note : String) (s : State) (t : ℕ) : Prop :=
  match s.phase t with
  | .idle | .evaluating _ => True
  | .generating call => call.outputs = generatedOf s t
  | .replied reply =>
      ∀ request, s.posted t = some request → Answered note s t request reply

theorem kept_generating {call : Call} (h : s.phase t = .generating call) :
    Kept note s t ↔ call.outputs = generatedOf s t := by
  rw [Kept, h]

theorem kept_replied {reply : Reply} (h : s.phase t = .replied reply) :
    Kept note s t ↔
      ∀ request, s.posted t = some request → Answered note s t request reply := by
  rw [Kept, h]

/-- A step that generates nothing for a thread leaves it alone. -/
theorem Kept.frame (h : Kept note s u) (hinv : EngineInv s')
    (hphase : s'.phase u = s.phase u) (hposted : s'.posted u = s.posted u)
    (hgen : generatedOf s' u = generatedOf s u)
    (hsub : s.generated ⊆ s'.generated) : Kept note s' u := by
  cases hu : s.phase u with
  | idle => simp [Kept, hphase, hu]
  | evaluating questions => simp [Kept, hphase, hu]
  | generating call =>
      rw [kept_generating (hphase.trans hu), hgen]
      exact (kept_generating hu).mp h
  | replied reply =>
      rw [kept_replied (hphase.trans hu), hposted]
      intro request hrequest
      exact ((kept_replied hu).mp h request hrequest).mono hinv hsub

/-- A call that has collected all that was generated for it answers. -/
theorem answered_respond {call : Call} {request : Request}
    (hinv : Inv note s) (hphase : s.phase t = .generating call)
    (hposted : s.posted t = some request)
    (hall : call.submitted = call.questions.length)
    (hempty : s.unfinished = []) (hkept : call.outputs = generatedOf s t) :
    Answered note s t request (respond call.questions call.outputs) := by
  obtain ⟨⟨request', hposted', hpost⟩, -, hsent⟩ :=
    (threadInv_generating hphase).mp (hinv.thread t)
  rw [hposted] at hposted'
  cases hposted'
  -- sorted by id, the outputs are those of the prompts in their order
  have hsorted : (sortById call.outputs).map (·.request) = submissionsOf s t := by
    have hids : (submissionsOf s t).Pairwise fun r r' =>
        r.requestId < r'.requestId := hinv.engine.ids.filter _
    have hperm := hinv.engine.drained hempty t
    rw [← hkept] at hperm
    have hsort := map_sort_tickets hids hperm
    exact hsort
  have hindex : (sortById call.outputs).map (fun o =>
      (o.request.index, o.request.prompt)) =
        call.questions.mapIdx fun i q => (i, studentPrompt q note) := by
    rw [sent, hall, List.take_length, ← hsorted, List.map_map] at hsent
    exact hsent
  have hlen : call.questions.length = (sortById call.outputs).length := by
    have hlength := congrArg List.length hindex
    rw [List.length_map, List.length_mapIdx] at hlength
    exact hlength.symm
  have hrespond : respond call.questions call.outputs = .ok (List.zipWith
      (fun q o => evaluateOutput q o.texts) call.questions
      (sortById call.outputs)) := by
    rw [respond, evaluateOutputs_of_length_eq hlen]
  rw [hrespond]
  constructor
  case accepted =>
    intro _ _
    rfl
  case own =>
    intro results hok
    cases hok
    refine ⟨call.questions, hpost, ?_, ?_⟩
    · rw [List.length_zipWith, ← hlen, Nat.min_self]
    · intro i q e hq he
      obtain ⟨q', o, hq', ho, rfl⟩ := List.getElem?_zipWith_eq_some.mp he
      rw [hq] at hq'
      cases hq'
      have hmem : o ∈ generatedOf s t := by
        rw [← hkept]
        exact (List.perm_insertionSort _ _).subset (List.mem_of_getElem? ho)
      obtain ⟨hgen, hclient⟩ := List.mem_filter.mp hmem
      -- output `i` is the one for prompt `i` of this client
      have hkey := congrArg (·[i]?) hindex
      simp [ho, hq] at hkey
      refine ⟨o, ?_, hkey.2, rfl⟩
      rw [← of_decide_eq_true hclient, ← hkey.1]
      exact hinv.engine.rollouts_eq hgen

theorem post_kept (hinv' : Inv note s') (h : ∀ u, Kept note s u)
    {request : Request} (hs : post s t request = some s') :
    ∀ u, Kept note s' u := by
  obtain ⟨-, rfl⟩ := post_spec hs
  intro u
  by_cases hut : u = t
  · subst hut
    cases hpost : doPost request with
    | ok questions => simp [Kept, afterChecks]
    | error reply =>
        rw [afterChecks, kept_replied (setPhase_self _ u _)]
        intro request' hrequest'
        have hself : Function.update s.posted u (some request) u =
            some request' := hrequest'
        rw [Function.update_self] at hself
        cases hself
        have hstatus := status_of_doPost_error hpost
        constructor
        · rintro results rfl
          exact absurd rfl hstatus
        · intro questions hok
          rw [hpost] at hok
          cases hok
  · refine (h u).frame hinv'.engine ?_ (Function.update_of_ne hut _ _) rfl
      (List.Subset.refl _)
    exact setPhase_of_ne _ _ hut

theorem generate_kept (hinv : Inv note s) (hinv' : Inv note s')
    (h : ∀ u, Kept note s u) (hs : generate s t = some s') :
    ∀ u, Kept note s' u := by
  obtain ⟨questions, hphase, rfl⟩ := generate_spec hs
  intro u
  by_cases hut : u = t
  · subst hut
    have hnil := ((threadInv_evaluating hphase).mp (hinv.thread u)).2
    rw [kept_generating (setPhase_self s u _)]
    exact (hinv.engine.generatedOf_eq_nil hnil).symm
  · exact (h u).frame hinv'.engine (setPhase_of_ne s _ hut) rfl rfl
      (List.Subset.refl _)

theorem submit_kept (hinv' : Inv note s') (h : ∀ u, Kept note s u)
    (hs : submit note s t = some s') : ∀ u, Kept note s' u := by
  obtain ⟨call, question, hphase, -, rfl⟩ := submit_spec hs
  intro u
  by_cases hut : u = t
  · subst hut
    rw [kept_generating (setPhase_self _ u _)]
    exact (kept_generating hphase).mp (h u)
  · refine (h u).frame hinv'.engine ?_ rfl rfl (List.Subset.refl _)
    exact setPhase_of_ne (s.addRequest _) _ hut

/-- The step at which calls can cross. -/
theorem engineStep_kept (hinv' : Inv note s') (h : ∀ u, Kept note s u)
    {finished : List RequestOutput}
    (hok : ∀ o ∈ finished, o.request.client = t)
    (hs : engineStep s t finished = some s') : ∀ u, Kept note s' u := by
  obtain ⟨call, hphase, -, -, rfl⟩ := engineStep_spec hs
  intro u
  by_cases hut : u = t
  · subst hut
    have hkept := (kept_generating hphase).mp (h u)
    have hmine : finished.filter (·.request.client = u) = finished := by
      rw [List.filter_eq_self]
      intro o ho
      exact decide_eq_true (hok o ho)
    -- the call takes all that the step generates
    rw [kept_generating (setPhase_self _ u _)]
    simp only [generatedOf, State.setPhase, State.finish, List.filter_append,
      hmine, hkept]
  · have hnone : finished.filter (·.request.client = u) = [] := by
      rw [List.filter_eq_nil_iff]
      intro o ho hclient
      exact hut ((of_decide_eq_true hclient).symm.trans (hok o ho))
    refine (h u).frame hinv'.engine ?_ rfl ?_ ?_
    · exact setPhase_of_ne (s.finish finished) _ hut
    · simp only [generatedOf, State.setPhase, State.finish,
        List.filter_append, hnone, List.append_nil]
    · exact List.subset_append_left _ _

theorem collect_kept (hinv : Inv note s) (hinv' : Inv note s')
    (h : ∀ u, Kept note s u) (hs : collect s t = some s') :
    ∀ u, Kept note s' u := by
  obtain ⟨call, hphase, hsubmitted, hready, rfl⟩ := collect_spec hs
  intro u
  by_cases hut : u = t
  · subst hut
    have hkept := (kept_generating hphase).mp (h u)
    rw [kept_replied (setPhase_self s u _)]
    intro request hposted
    have hanswered := answered_respond hinv hphase hposted hsubmitted hready hkept
    exact hanswered.mono hinv'.engine (List.Subset.refl _)
  · exact (h u).frame hinv'.engine (setPhase_of_ne s _ hut) rfl rfl
      (List.Subset.refl _)

theorem step_kept (hinv : Inv note s) (h : ∀ u, Kept note s u) {e : Event}
    (hok : Uncrossed s e) (hs : step note s e = some s') : ∀ u, Kept note s' u := by
  have hinv' : Inv note s' := step_inv hinv hs
  cases e with
  | post t request => exact post_kept hinv' h hs
  | generate t => exact generate_kept hinv hinv' h hs
  | submit t => exact submit_kept hinv' h hs
  | engineStep t finished => exact engineStep_kept hinv' h hok hs
  | collect t => exact collect_kept hinv hinv' h hs

/-- Along a run without crossing every call keeps what was generated for it. -/
theorem reachable_kept (h : (machine note).ReachableIf Uncrossed s) :
    ∀ t, Kept note s t := by
  refine Machine.ReachableIf.invariant (I := fun s => ∀ t, Kept note s t) ?_ ?_ h
  · intro t
    trivial
  · intro s e s' hreach hkept hok hs
    exact step_kept (reachable_inv hreach) hkept hok hs

/-- **No interference without crossing.** For any number of clients, any
requests and any interleaving in which every engine step finishes prompts of
the call that takes it, each reply answers its own request: a 200 reply has the
evaluation of every question on the rollouts of that question, and no request
with questions gets another reply. -/
theorem answered_of_uncrossed (note : String) {s : State}
    (h : (machine note).ReachableIf Uncrossed s) {t : ℕ} {request : Request}
    {reply : Reply} (hposted : s.posted t = some request)
    (hreply : s.phase t = .replied reply) : Answered note s t request reply :=
  (kept_replied hreply).mp (reachable_kept h t) request hposted

/-! ### Two clients -/

instance (s : State) (e : Event) : Decidable (Uncrossed s e) := by
  cases e <;> unfold Uncrossed <;> infer_instance

def exampleRequest (question : String) : Request :=
  ⟨"/evaluate", .ok (.obj [("questions", .arr [.str question])])⟩

/-- The one prompt of client `t`, submitted as number `t`. -/
def exampleOutput (t : ℕ) (question text : String) : RequestOutput :=
  ⟨⟨t, studentPrompt question "", t, 0⟩, [text]⟩

/-- Both clients have submitted their prompt. -/
def exampleSubmissions : List Event :=
  [.post 0 (exampleRequest "1+1?"), .post 1 (exampleRequest "2+3?"),
   .generate 0, .generate 1, .submit 0, .submit 1]

/-- Each call happens to finish its own prompt. -/
def exampleUncrossed : List Event :=
  exampleSubmissions ++
    [.engineStep 0 [exampleOutput 0 "1+1?" "answer: 2"],
     .engineStep 1 [exampleOutput 1 "2+3?" "answer: 5"], .collect 1, .collect 0]

theorem answered_exampleUncrossed :
    ∃ s, (machine "").ReachableIf Uncrossed s ∧ ∃ request reply,
      s.posted 0 = some request ∧ s.phase 0 = .replied reply ∧
        Answered "" s 0 request reply := by
  obtain ⟨s, hs, hp⟩ := Machine.exists_reachableIf_of_runIf (M := machine "")
    Uncrossed (p := fun s => decide ((s.posted 0).isSome ∧ s.phase 0 =
      .replied (.ok [evaluateOutput "1+1?" ["answer: 2"]])))
    exampleUncrossed (by decide +kernel)
  obtain ⟨hsome, hphase⟩ := of_decide_eq_true hp
  obtain ⟨request, hposted⟩ := Option.isSome_iff_exists.mp hsome
  exact ⟨s, hs, request, _, hposted, hphase,
    answered_of_uncrossed "" hs hposted hphase⟩

/-- Each call finishes the prompt of the other one. -/
def exampleCrossed : List Event :=
  exampleSubmissions ++
    [.engineStep 0 [exampleOutput 1 "2+3?" "answer: 5"],
     .engineStep 1 [exampleOutput 0 "1+1?" "answer: 2"], .collect 0]

/-- The first call finishes both prompts. -/
def exampleTaken : List Event :=
  exampleSubmissions ++
    [.engineStep 0 [exampleOutput 0 "1+1?" "answer: 2",
      exampleOutput 1 "2+3?" "answer: 5"], .collect 0]

/-- A client is given the evaluation of the other one's rollouts, and a valid
request is refused, each because of the other one. -/
theorem interference_exampleClients :
    (∃ s, (machine "").Reachable s ∧ ∃ request results,
      s.posted 0 = some request ∧ s.phase 0 = .replied (.ok results) ∧
        ¬ ∃ questions, doPost request = .ok questions ∧
          FromOwn "" s 0 questions results) ∧
    (∃ s, (machine "").Reachable s ∧ ∃ request questions error,
      s.posted 0 = some request ∧ doPost request = .ok questions ∧
        s.phase 0 = .replied (.badRequest error)) := by
  constructor
  · obtain ⟨s, hs, hp⟩ := Machine.exists_reachable_of_run (M := machine "")
      (p := fun s => decide ((s.posted 0).isSome ∧
        s.phase 0 = .replied (.ok [evaluateOutput "1+1?" ["answer: 5"]]) ∧
        (rollouts s 0 0).map (·.texts) = [["answer: 2"]]))
      exampleCrossed (by decide +kernel)
    obtain ⟨hsome, hphase, hrollouts⟩ := of_decide_eq_true hp
    obtain ⟨request, hposted⟩ := Option.isSome_iff_exists.mp hsome
    refine ⟨s, hs, request, _, hposted, hphase, ?_⟩
    rintro ⟨questions, -, hlen, hown⟩
    obtain ⟨q, rfl⟩ := List.length_eq_one_iff.mp hlen.symm
    obtain ⟨o, ho, -, heq⟩ := hown 0 q _ rfl rfl
    rw [ho] at hrollouts
    have htexts : o.texts = ["answer: 2"] := List.singleton_inj.mp hrollouts
    have htraces := congrArg Evaluation.traces heq
    simp [evaluateOutput, htexts] at htraces
  · obtain ⟨s, hs, hp⟩ := Machine.exists_reachable_of_run (M := machine "")
      (p := fun s => decide ((s.posted 0).map doPost = some (.ok ["1+1?"]) ∧
        s.phase 0 =
          .replied (.badRequest "zip() argument 2 is longer than argument 1")))
      exampleTaken (by decide +kernel)
    obtain ⟨hposted, hphase⟩ := of_decide_eq_true hp
    obtain ⟨request, hrequest, hpost⟩ := Option.map_eq_some_iff.mp hposted
    exact ⟨s, hs, request, _, _, hrequest, hpost, hphase⟩

/-! ## Calls one after the other -/

def Phase.isGenerating : Phase → Bool
  | .generating _ => true
  | _ => false

/-- No call of `generate` begins while another one is going on. -/
def Serial (s : State) : Event → Prop
  | .generate _ => ∀ u, (s.phase u).isGenerating = false
  | _ => True

/-- One call at a time, and the queue is its own. -/
structure SerialInv (s : State) : Prop where
  one : ∀ t u, (s.phase t).isGenerating = true →
    (s.phase u).isGenerating = true → t = u
  queue : ∀ r ∈ s.unfinished, (s.phase r.client).isGenerating = true

theorem initial_serialInv : SerialInv initial where
  one := by
    intro t u ht _
    cases ht
  queue := by
    intro r hr
    cases hr

/-- Steps that begin and end no call. -/
theorem SerialInv.frame (h : SerialInv s)
    (hphase : ∀ u, (s'.phase u).isGenerating = (s.phase u).isGenerating)
    (hqueue : ∀ r ∈ s'.unfinished,
      r ∈ s.unfinished ∨ (s.phase r.client).isGenerating = true) :
    SerialInv s' := by
  constructor
  · intro t u ht hu
    rw [hphase] at ht hu
    exact h.one t u ht hu
  · intro r hr
    rw [hphase]
    rcases hqueue r hr with hr | hr
    · exact h.queue r hr
    · exact hr

theorem isGenerating_setPhase {p : Phase}
    (h : p.isGenerating = (s.phase t).isGenerating) (u : ℕ) :
    ((s.setPhase t p).phase u).isGenerating = (s.phase u).isGenerating := by
  by_cases hut : u = t
  · subst hut
    rw [setPhase_self, h]
  · rw [setPhase_of_ne s p hut]

theorem post_serialInv (hinv : Inv note s) (h : SerialInv s) {request : Request}
    (hs : post s t request = some s') : SerialInv s' := by
  obtain ⟨hposted, rfl⟩ := post_spec hs
  -- a client that has not posted is not generating
  have hidle : (s.phase t).isGenerating = false := by
    cases hphase : s.phase t with
    | generating call =>
        obtain ⟨⟨request, hsome, -⟩, -⟩ :=
          (threadInv_generating hphase).mp (hinv.thread t)
        rw [hposted] at hsome
        cases hsome
    | idle => rfl
    | evaluating questions => rfl
    | replied reply => rfl
  refine h.frame ?_ fun r hr => .inl hr
  apply isGenerating_setPhase
  rw [hidle]
  cases doPost request <;> rfl

theorem generate_serialInv (h : SerialInv s)
    (hok : ∀ u, (s.phase u).isGenerating = false)
    (hs : generate s t = some s') : SerialInv s' := by
  obtain ⟨questions, hphase, rfl⟩ := generate_spec hs
  have honly : ∀ u, ((s.setPhase t (.generating ⟨questions, 0, []⟩)).phase
      u).isGenerating = true → u = t := by
    intro u hu
    by_contra hut
    rw [setPhase_of_ne s _ hut, hok u] at hu
    cases hu
  constructor
  · intro u v hu hv
    rw [honly u hu, honly v hv]
  · intro r hr
    have hgen := h.queue r hr
    rw [hok r.client] at hgen
    cases hgen

theorem submit_serialInv (h : SerialInv s) (hs : submit note s t = some s') :
    SerialInv s' := by
  obtain ⟨call, question, hphase, -, rfl⟩ := submit_spec hs
  have hgen : (s.phase t).isGenerating = true := by rw [hphase]; rfl
  refine h.frame (isGenerating_setPhase hgen.symm) ?_
  intro r hr
  rcases List.mem_append.mp hr with hr | hr
  · exact .inl hr
  · rw [List.mem_singleton.mp hr]
    exact .inr hgen

theorem engineStep_serialInv (h : SerialInv s) {finished : List RequestOutput}
    (hs : engineStep s t finished = some s') : SerialInv s' := by
  obtain ⟨call, hphase, -, -, rfl⟩ := engineStep_spec hs
  have hgen : (s.phase t).isGenerating = true := by rw [hphase]; rfl
  refine h.frame (isGenerating_setPhase hgen.symm) ?_
  intro r hr
  exact .inl (List.mem_of_mem_filter hr)

theorem collect_serialInv (h : SerialInv s) (hs : collect s t = some s') :
    SerialInv s' := by
  obtain ⟨call, hphase, -, hready, rfl⟩ := collect_spec hs
  have hsub : ∀ u, ((s.setPhase t (.replied (respond call.questions
      call.outputs))).phase u).isGenerating = true →
        (s.phase u).isGenerating = true := by
    intro u hu
    by_cases hut : u = t
    · subst hut
      rw [setPhase_self] at hu
      cases hu
    · rwa [setPhase_of_ne s _ hut] at hu
  constructor
  · intro u v hu hv
    exact h.one u v (hsub u hu) (hsub v hv)
  · intro r hr
    have hr' : r ∈ s.unfinished := hr
    rw [hready] at hr'
    cases hr'

theorem step_serialInv (hinv : Inv note s) (h : SerialInv s) {e : Event}
    (hok : Serial s e) (hs : step note s e = some s') : SerialInv s' := by
  cases e with
  | post t request => exact post_serialInv hinv h hs
  | generate t => exact generate_serialInv h hok hs
  | submit t => exact submit_serialInv h hs
  | engineStep t finished => exact engineStep_serialInv h hs
  | collect t => exact collect_serialInv h hs

theorem reachable_serialInv (h : (machine note).ReachableIf Serial s) :
    SerialInv s := by
  refine Machine.ReachableIf.invariant (I := SerialInv) initial_serialInv ?_ h
  intro s e s' hreach hinv hok hs
  exact step_serialInv (reachable_inv hreach) hinv hok hs

/-- Calls that do not overlap do not cross. -/
theorem uncrossed_of_serial (h : (machine note).ReachableIf Serial s) :
    (machine note).ReachableIf Uncrossed s := by
  apply h.weaken
  intro s e s' hreach _ hs
  have hserial := reachable_serialInv hreach
  cases e with
  | engineStep t finished =>
      intro o ho
      obtain ⟨call, hphase, -, hready, -⟩ := engineStep_spec hs
      apply hserial.one
      · exact hserial.queue _ (hready.2 o ho)
      · rw [hphase]
        rfl
  | _ => trivial

/-- **No interference without overlap.** With the calls of `generate` one after
the other, whatever else the threads interleave, each reply answers its own
request. -/
theorem answered_of_serial (note : String) {s : State}
    (h : (machine note).ReachableIf Serial s) {t : ℕ} {request : Request}
    {reply : Reply} (hposted : s.posted t = some request)
    (hreply : s.phase t = .replied reply) : Answered note s t request reply :=
  answered_of_uncrossed note (uncrossed_of_serial h) hposted hreply

end TTSR.Evaluator
