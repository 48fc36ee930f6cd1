import Mosec.Routing

namespace Mosec

namespace Handler

def outcome : Handler → Option Outcome
  | .uncount outcome => some outcome
  | .done outcome => some outcome
  | _ => none

end Handler

namespace Life

structure Concluded (ℓ : Life) : Prop where
  task : ∀ {task}, ℓ.request.handler.outcome = some (.task task) →
    ℓ.oneshot.sent = true ∧ task = ℓ.taskAfter ℓ.history.replies
  known : ℓ.request.handler.outcome ≠ some (.error .UnknownError)

variable {svc : Service} {lab : Label} {ℓ ℓ' : Life}

theorem Concluded.new (h : ℕ) : (new h).Concluded := by
  constructor <;> simp [Life.new, Request.absent, Handler.outcome]

theorem Own.concludes (hs : Own svc lab ℓ ℓ') {outcome : Outcome}
    (h : ℓ'.request.handler.outcome = some outcome) :
    ℓ.request.handler.outcome = some outcome ∨
      (ℓ.request.handler = .takeTask ∧
        (ℓ.entry = none ∨ ∃ task, ℓ.entry = some task ∧ outcome = .task task)) ∨
      ∀ task, outcome ≠ .task task ∧ outcome ≠ .error .UnknownError := by
  cases hs
  case takeTask task hq htask =>
    cases h
    exact Or.inr (Or.inl ⟨hq, Or.inr ⟨task, htask, rfl⟩⟩)
  case missTask hq htask => exact Or.inr (Or.inl ⟨hq, Or.inl htask⟩)
  case uncount outcome₀ hq =>
    rw [hq]
    exact Or.inl h
  case receiveEvent => exact Or.inl h
  case endStream => exact Or.inl h
  case leave => exact Or.inl h
  case refuse =>
    cases h
    exact Or.inr (Or.inr (by simp))
  case deleteStream =>
    cases h
    exact Or.inr (Or.inr (by simp))
  case deleteTask exit hq =>
    right
    right
    cases exit with
    | finished => cases h
    | expired =>
      cases h
      simp
    | rejected =>
      by_cases hsse : ℓ.request.isSse <;>
        simp only [goto, Request.afterDelete, hsse, Handler.outcome] at h <;> cases h <;> simp
  case accept hq hroute hc =>
    by_cases hsse : ℓ.request.isSse <;> simp [goto, carry, hsse, Handler.outcome] at h
  case resume hq hdone =>
    by_cases hsse : ℓ.request.isSse <;> simp [goto, hsse, Handler.outcome] at h
  all_goals cases h

theorem Concluded.own (h : ℓ.Concluded) (hn : ℓ.Notified) (hf : ℓ.Filed)
    (hs : Own svc lab ℓ ℓ') : ℓ'.Concluded where
  task := by
    intro task houtcome
    rw [hs.sent, hs.history.1]
    have hrequest : ℓ'.taskAfter ℓ.history.replies = ℓ.taskAfter ℓ.history.replies ∨
        ℓ.request.handler = .absent := by
      rcases hs.request with hq | ⟨hkey, hbody, -⟩
      · exact Or.inr hq
      · left
        rw [taskAfter, taskAfter, hkey, hbody, hs.self]
    rcases hs.concludes houtcome with hbefore | ⟨hq, hnone | ⟨task₀, htask₀, htask⟩⟩ | hnever
    · rcases hrequest with heq | hq
      · rw [heq]
        exact h.task hbefore
      · rw [hq] at hbefore
        cases hbefore
    · have hsome := hf.filed (by rw [hq]; rfl)
      rw [hnone] at hsome
      cases hsome
    · cases htask
      have hsent := hn.taking hq
      rcases hrequest with heq | hq'
      · rw [heq]
        exact ⟨hsent, hf.task htask₀ (by simp [hn.sent hsent])⟩
      · rw [hq] at hq'
        cases hq'
    · exact absurd rfl (hnever task).1
  known := by
    intro houtcome
    rcases hs.concludes houtcome with hbefore | ⟨hq, hnone | ⟨task₀, htask₀, htask⟩⟩ | hnever
    · exact h.known hbefore
    · have hsome := hf.filed (by rw [hq]; rfl)
      rw [hnone] at hsome
      cases hsome
    · cases htask
    · exact absurd rfl (hnever (Task.new [] "" 0)).2

theorem Concluded.served (h : ℓ.Concluded) (hn : ℓ.Notified) (hs : Served svc lab ℓ ℓ') :
    ℓ'.Concluded := by
  obtain ⟨hself, hrequest, -⟩ := hs.frame
  constructor
  case task =>
    intro task houtcome
    rw [hrequest] at houtcome
    obtain ⟨p, outbox, hp⟩ := hs.carried
    rw [hn.sent (h.task houtcome).1] at hp
    cases hp
  case known =>
    rw [hrequest]
    exact h.known

theorem Concluded.step (h : ℓ.Concluded) (hn : ℓ.Notified) (hf : ℓ.Filed)
    (hs : Step svc lab ℓ ℓ') : ℓ'.Concluded := by
  rcases hs with hs | hs | ⟨-, hs⟩
  · exact h.own hn hf hs
  · exact h.served hn hs
  · obtain ⟨events, buffer, rfl⟩ := hs.frame
    exact { h with }

end Life

namespace State

variable {svc : Service} {ok : State → Action → Prop} {s : State}

theorem concluded_of_run (hs : FreshRun svc ok s) (h : ℕ) : (s.life h).Concluded :=
  life_invariant Life.Concluded Life.Concluded.new
    (fun hrun _ _ hlife hinv => hinv.step (notified_of_run hrun _) (filed_of_run hrun _) hlife) hs h

theorem submit_task_response (hs : Run svc ok s) (hlt : s.submitted < 2 ^ 32) (h : ℕ) :
    (∀ task, (s.requests h).handler.outcome = some (.task task) →
      task.createAt = h ∧ task.route = (s.requests h).key ∧ task.stage ≠ 0 ∧
      (s.manager.history h).replies.getLast? = some (task.code, task.data) ∧
      (task.code ≠ .Normal ∨ ∃ route, svc.senders task.route = some route ∧
        task.stage = route.length ∧ (s.manager.history h).replies.length = route.length ∧
        ∀ reply ∈ (s.manager.history h).replies, reply.1 = .Normal)) ∧
    (s.requests h).handler.outcome ≠ some (.error .UnknownError) := by
  have hrun := (freshRun_of_submitted hs hlt).1
  have hconcluded := concluded_of_run hrun h
  refine ⟨?_, hconcluded.known⟩
  intro task htask
  obtain ⟨hsent, rfl⟩ := hconcluded.task htask
  obtain ⟨earlier, code, data, hreplies, hnormal, hend⟩ := (routed_of_run hrun h).sent hsent
  obtain ⟨hstage, hroute, hcreate⟩ := Task.after_fields (s.requests h).body (s.requests h).key h
    (s.manager.history h).replies
  have hreplies' : (s.manager.history h).replies = earlier ++ [(code, data)] := hreplies
  have hfields : (s.life h).taskAfter (s.life h).history.replies =
      (Task.after (s.requests h).body (s.requests h).key h earlier).update code data := by
    rw [hreplies, Life.taskAfter, Task.after_append]
    rfl
  refine ⟨hcreate, hroute, ?_, ?_, ?_⟩
  · have hlength : (s.manager.history h).replies.length ≠ 0 := by simp [hreplies']
    exact fun hzero => hlength (hstage.symm.trans hzero)
  · rw [hreplies', List.getLast?_concat, hfields]
    rfl
  · by_cases hcode : code = .Normal
    · obtain ⟨route, hsenders, hlength⟩ := hend.resolve_left (not_not_intro hcode)
      refine Or.inr ⟨route, ?_, hstage.trans hlength, hlength, ?_⟩
      · exact (congrArg svc.senders hroute).trans hsenders
      · intro reply hreply
        rw [hreplies'] at hreply
        rcases List.mem_append.mp hreply with hreply | hreply
        · exact hnormal reply hreply
        · rw [List.mem_singleton.mp hreply]
          exact hcode
    · left
      rw [hfields]
      exact hcode

def echoRun (reply : Bytes) : List Action :=
  [.connect 0, .submit false "/" [1]] ++ List.replicate 4 (.request 0 .run) ++
    [.conn 0 .recv, .conn 0 .run, .conn 0 .writeOk, .conn 0 (.readReply .Normal [⟨0, 0, reply⟩])] ++
    List.replicate 6 (.conn 0 .run) ++ [.request 0 .resume, .request 0 .run]

theorem submit_task_response_echo : ∃ s, Transition.run (step echo) start (echoRun [2]) = some s ∧
    (s.requests 0).handler.outcome = some (.task ⟨.Normal, [2], 1, "/", 0⟩) ∧
    (s.manager.history 0).replies.getLast? = some (.Normal, [2]) := by
  have hview : ((Transition.run (step echo) start (echoRun [2])).map fun s =>
      (s.submitted, (s.requests 0).handler.outcome)) =
      some (1, some (.task ⟨.Normal, [2], 1, "/", 0⟩)) := by
    decide +kernel
  obtain ⟨s, hs, hfields⟩ := Option.map_eq_some_iff.mp hview
  obtain ⟨hsubmitted, houtcome⟩ := Prod.mk.inj hfields
  have hlt : s.submitted < 2 ^ 32 := by
    rw [hsubmitted]
    decide
  have hresponse := (submit_task_response (Transition.reachable_of_run hs) hlt 0).1 _ houtcome
  exact ⟨s, hs, houtcome, hresponse.2.2.2.1⟩

end State

end Mosec
