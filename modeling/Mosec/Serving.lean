import Mosec.Notifying

namespace Mosec

namespace Handler

def unfiled : Handler → Bool
  | .insertTask => true
  | handler => handler.unnotified

def filed : Handler → Bool
  | .trySend => true
  | .insertStream => true
  | .count => true
  | .spawn => true
  | .waiting => true
  | .takeTask => true
  | _ => false

theorem awaiting_of_filed {handler : Handler} (h : handler.filed) :
    handler.awaiting ∨ handler = .takeTask := by
  cases handler <;> first | exact Or.inl rfl | exact Or.inr rfl | cases h

theorem arriving_of_unfiled {handler : Handler} (h : handler.unfiled) : handler.arriving := by
  cases handler <;> first | rfl | cases h

theorem Leads.unfiled {a b : Handler} (h : Leads a b) (hb : b.unfiled) : a.unfiled := by
  cases h <;> first | rfl | exact hb

theorem Leads.filed {a b : Handler} (h : Leads a b) (hb : b.filed) :
    a.filed ∨ a = .insertTask ∧ b = .trySend := by
  cases h <;> first | exact Or.inl rfl | exact Or.inl hb | exact Or.inr ⟨rfl, rfl⟩

end Handler

namespace Place

def serving : Place → Bool
  | .queued _ => true
  | .batched _ => true
  | .framed _ _ => true
  | .working _ _ => true
  | .toSend => true
  | .sending _ => true
  | _ => false

end Place

def Task.after (data : Bytes) (route : String) (now : ℕ) (replies : List (TaskCode × Bytes)) :
    Task :=
  replies.foldl (fun task reply => task.update reply.1 reply.2) (Task.new data route now)

theorem Task.after_append (data : Bytes) (route : String) (now : ℕ)
    (replies : List (TaskCode × Bytes)) (code : TaskCode) (reply : Bytes) :
    Task.after data route now (replies ++ [(code, reply)]) =
      (Task.after data route now replies).update code reply := by
  simp [Task.after]

theorem Task.after_fields (data : Bytes) (route : String) (now : ℕ)
    (replies : List (TaskCode × Bytes)) :
    (Task.after data route now replies).stage = replies.length ∧
      (Task.after data route now replies).route = route ∧
      (Task.after data route now replies).createAt = now := by
  induction replies using List.reverseRecOn with
  | nil => exact ⟨rfl, rfl, rfl⟩
  | append_singleton replies reply ih =>
    obtain ⟨hstage, hroute, hcreate⟩ := ih
    rw [Task.after_append]
    refine ⟨?_, hroute, hcreate⟩
    rw [List.length_append, ← hstage]
    rfl

namespace Life

def taskAfter (ℓ : Life) (replies : List (TaskCode × Bytes)) : Task :=
  Task.after ℓ.request.body ℓ.request.key ℓ.self replies

def Normals (replies : List (TaskCode × Bytes)) : Prop := ∀ reply ∈ replies, reply.1 = .Normal

/-- The task of a submission holds what the stages have replied. -/
structure Filed (ℓ : Life) : Prop where
  arriving : ℓ.request.handler.arriving → ℓ.history.replies = [] ∧ ℓ.history.handed = []
  unfiled : ℓ.request.handler.unfiled → ℓ.entry = none
  filed : ℓ.request.handler.filed → ℓ.entry.isSome
  task : ∀ {task}, ℓ.entry = some task →
    (∀ code data outbox, ℓ.carried ≠ some (.answered code data, outbox)) →
    task = ℓ.taskAfter ℓ.history.replies
  answered : ∀ {code data outbox}, ℓ.carried = some (.answered code data, outbox) →
    ∃ earlier, ℓ.history.replies = earlier ++ [(code, data)] ∧ Normals earlier ∧
      ∀ task, ℓ.entry = some task → task = ℓ.taskAfter earlier
  serving : ∀ {p outbox}, ℓ.carried = some (p, outbox) → p.serving → Normals ℓ.history.replies

variable {svc : Service} {lab : Label} {ℓ ℓ' : Life}

theorem Filed.new (h : ℕ) : (new h).Filed := by
  constructor <;> simp [Life.new, Request.absent, Handler.filed]

theorem Filed.own (h : ℓ.Filed) (hn : ℓ.Notified) (hs : Own svc lab ℓ ℓ') : ℓ'.Filed where
  arriving := by
    intro ha
    obtain ⟨hreplies, hhanded, -⟩ := hs.history
    rw [hreplies, hhanded]
    exact h.arriving (hs.leads.arriving ha)
  unfiled := by
    intro hu
    have hnone := h.unfiled (hs.leads.unfiled hu)
    cases hs
    case insertTask => cases hu
    case takeTask => rfl
    case deleteTask => rfl
    all_goals exact hnone
  filed := by
    intro hf
    rcases hs.leads.filed hf with hf₀ | ⟨hinsert, htry⟩
    · rcases hs.entry (h.filed hf₀) with hsome | ⟨task, hq⟩ | ⟨exit, hq⟩
      · exact hsome
      · rw [hq] at hf
        cases hf
      · rw [hq] at hf₀
        cases hf₀
    · rcases hs.insertedTask hinsert with hq | hsome
      · rw [htry] at hq
        cases hq
      · exact hsome
  task := by
    intro task htask hcarried
    cases hs
    case refuse hq =>
      rw [h.unfiled (by rw [hq]; rfl)] at htask
      cases htask
    case submit hbody hq =>
      replace htask : ℓ.entry = some task := htask
      rw [h.unfiled (by rw [hq]; rfl)] at htask
      cases htask
    case takeId hq =>
      replace htask : ℓ.entry = some task := htask
      rw [h.unfiled (by rw [hq]; rfl)] at htask
      cases htask
    case insertTask hq =>
      cases htask
      change _ = ℓ.taskAfter ℓ.history.replies
      rw [(h.arriving (by rw [hq]; rfl)).1]
      rfl
    case accept hq hroute hc => exact h.task htask (by simp [hc])
    case takeTask => cases htask
    case deleteTask => cases htask
    all_goals exact h.task htask hcarried
  answered := by
    intro code data outbox hp
    rcases hs.carried with heq | ⟨-, route, r, -, -, hqueued, -⟩
    · rw [heq] at hp
      obtain ⟨earlier, hreplies, hnormal, htask⟩ := h.answered hp
      refine ⟨earlier, hs.history.1.trans hreplies, hnormal, ?_⟩
      intro task htask'
      cases hs
      case refuse hq => simp [(hn.arriving (by rw [hq]; rfl)).1] at hp
      case submit hbody hq => simp [(hn.arriving (by rw [hq]; rfl)).1] at hp
      case takeId hq => simp [(hn.arriving (by rw [hq]; rfl)).1] at hp
      case insertTask hq => simp [(hn.arriving (by rw [hq]; rfl)).1] at hp
      case takeTask => cases htask'
      case deleteTask => cases htask'
      all_goals exact htask task htask'
    · rw [hqueued] at hp
      cases hp
  serving := by
    intro p outbox hp hserving
    rcases hs.carried with heq | ⟨hq, -⟩
    · rw [hs.history.1]
      exact h.serving (heq ▸ hp) hserving
    · rw [hs.history.1, (h.arriving (by rw [hq]; rfl)).1]
      simp [Normals]

theorem Filed.task_served (h : ℓ.Filed) (hs : Served svc lab ℓ ℓ') {task : Task}
    (htask : ℓ'.entry = some task)
    (hcarried : ∀ code data outbox, ℓ'.carried ≠ some (.answered code data, outbox)) :
    task = ℓ'.taskAfter ℓ'.history.replies := by
  cases hs
  case readReply => exact absurd rfl (hcarried _ _ _)
  case update data hp =>
    obtain ⟨earlier, hreplies, -, hentry⟩ := h.answered hp
    obtain ⟨task₀, htask₀, rfl⟩ := Option.map_eq_some_iff.mp htask
    rw [hentry task₀ htask₀, taskAfter, ← Task.after_append, ← hreplies]
    rfl
  case report code data task₀ given hcode hp htask₀ =>
    obtain ⟨earlier, hreplies, -, hentry⟩ := h.answered hp
    cases htask
    rw [hentry task₀ htask₀, taskAfter, ← Task.after_append, ← hreplies]
    rfl
  case remove => cases htask
  case ignore hcode hp hnone =>
    replace htask : ℓ.entry = some task := htask
    rw [hnone] at htask
    cases htask
  case lookup p event todo hp =>
    refine h.task htask fun code data outbox hp' => ?_
    rw [hp] at hp'
    cases hp'
    exact hcarried code data _ rfl
  case push p event todo hp hopen =>
    refine h.task htask fun code data outbox hp' => ?_
    rw [hp] at hp'
    cases hp'
    exact hcarried code data _ rfl
  case pushClosed p event todo hp hclosed =>
    refine h.task htask fun code data outbox hp' => ?_
    rw [hp] at hp'
    cases hp'
    exact hcarried code data _ rfl
  case lose p outbox hrisk hp hclosed =>
    refine h.task htask fun code data outbox hp' => ?_
    rw [hp] at hp'
    cases hp'
    cases hrisk
  all_goals
    refine h.task htask fun code data outbox hp' => ?_
    have hp := ‹ℓ.carried = some (_, Outbox.empty)›
    rw [hp] at hp'
    cases hp'

theorem Filed.answered_served (h : ℓ.Filed) (hs : Served svc lab ℓ ℓ') {code : TaskCode}
    {data : Bytes} {outbox : Outbox} (hp' : ℓ'.carried = some (.answered code data, outbox)) :
    ∃ earlier, ℓ'.history.replies = earlier ++ [(code, data)] ∧ Normals earlier ∧
      ∀ task, ℓ'.entry = some task → task = ℓ'.taskAfter earlier := by
  cases hs
  case readReply r item code data hp =>
    cases hp'
    refine ⟨ℓ.history.replies, rfl, h.serving hp rfl, ?_⟩
    intro task htask
    exact h.task htask (by simp [hp])
  case lookup p event todo hp =>
    cases hp'
    exact h.answered hp
  case push p event todo hp hopen =>
    cases hp'
    exact h.answered hp
  case pushClosed p event todo hp hclosed =>
    cases hp'
    exact h.answered hp
  all_goals cases hp'

theorem Filed.serving_served (h : ℓ.Filed) (hs : Served svc lab ℓ ℓ') {p' : Place}
    {outbox' : Outbox} (hp' : ℓ'.carried = some (p', outbox')) (hserving : p'.serving) :
    Normals ℓ'.history.replies := by
  cases hs
  case readReply => cases hp'; cases hserving
  case update data hp =>
    obtain ⟨earlier, hreplies, hnormal, -⟩ := h.answered hp
    intro reply hreply
    replace hreply : reply ∈ ℓ.history.replies := hreply
    rw [hreplies] at hreply
    rcases List.mem_append.mp hreply with hreply | hreply
    · exact hnormal reply hreply
    · rw [List.mem_singleton.mp hreply]
  case lookup p event todo hp =>
    cases hp'
    exact h.serving hp hserving
  case push p event todo hp hopen =>
    cases hp'
    exact h.serving hp hserving
  case pushClosed p event todo hp hclosed =>
    cases hp'
    exact h.serving hp hserving
  all_goals first
    | exact h.serving ‹ℓ.carried = some (_, Outbox.empty)› rfl
    | (cases hp'; done)
    | (cases hp'; cases hserving)

theorem Filed.served (h : ℓ.Filed) (hn : ℓ.Notified) (hs : Served svc lab ℓ ℓ') : ℓ'.Filed := by
  obtain ⟨-, hrequest, -, -, -⟩ := hs.frame
  obtain ⟨p, outbox, hp⟩ := hs.carried
  have harrived : ¬ ℓ.request.handler.arriving := by
    intro ha
    rw [(hn.arriving ha).1] at hp
    cases hp
  constructor
  case arriving =>
    intro ha
    exact absurd (hrequest ▸ ha) harrived
  case unfiled =>
    intro hu
    rw [hrequest] at hu
    exact absurd (Handler.arriving_of_unfiled hu) harrived
  case filed =>
    intro hf
    rw [hrequest] at hf
    rcases hs.entry with heq | ⟨hremove, -⟩
    · rw [heq]
      exact h.filed hf
    · exfalso
      rcases Handler.awaiting_of_filed hf with ha | hq
      · have hclosed := hn.abandoned hremove rfl
        rw [(hn.awaiting ha).1] at hclosed
        cases hclosed
      · rw [hn.sent (hn.taking hq)] at hremove
        cases hremove
  case task => exact h.task_served hs
  case answered => exact h.answered_served hs
  case serving => exact h.serving_served hs

theorem Filed.step (h : ℓ.Filed) (hn : ℓ.Notified) (hs : Step svc lab ℓ ℓ') : ℓ'.Filed := by
  rcases hs with hs | hs | ⟨-, hs⟩
  · exact h.own hn hs
  · exact h.served hn hs
  · obtain ⟨events, buffer, rfl⟩ := hs.frame
    exact { h with }

end Life

end Mosec
