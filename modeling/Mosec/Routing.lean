import Mosec.Serving

namespace Mosec

def Place.finishing : Place → Bool
  | .toNotify => true
  | p => p.completing

namespace Life

def Complete (svc : Service) (key : String) (replies : List (TaskCode × Bytes)) : Prop :=
  ∃ earlier code data, replies = earlier ++ [(code, data)] ∧ Normals earlier ∧
    (code ≠ .Normal ∨ ∃ route, svc.senders key = some route ∧ replies.length = route.length)

def Due (route handed : List ℕ) (n r : ℕ) : Prop := route[n]? = some r ∧ handed = route.take n

/-- Where a submission can be after `n` replies. `next` is the item made of its task. -/
def Located (route handed : List ℕ) (n : ℕ) (next : Item) : Place → Prop
  | .queued r => Due route handed n r
  | .batched r => Due route handed n r
  | .framed r item => Due route handed n r ∧ item = next
  | .working r item => route[n]? = some r ∧ handed = route.take (n + 1) ∧ item = next
  | .sending r => Due route handed n r
  | _ => n ≤ route.length ∧ handed = route.take n

def nextItem (svc : Service) (ℓ : Life) : Item :=
  itemFor svc ℓ.request.id (ℓ.taskAfter ℓ.history.replies)

structure Routed (ℓ : Life) (svc : Service) : Prop where
  located : ∀ {p outbox}, ℓ.carried = some (p, outbox) →
    ∃ route, svc.senders ℓ.request.key = some route ∧
      Located route ℓ.history.handed ℓ.history.replies.length (ℓ.nextItem svc) p
  handed : ℓ.history.handed ≠ [] →
    ∃ route, svc.senders ℓ.request.key = some route ∧ ℓ.history.handed <+: route
  finishing : ∀ {p outbox}, ℓ.carried = some (p, outbox) → p.finishing →
    Complete svc ℓ.request.key ℓ.history.replies
  sent : ℓ.oneshot.sent = true → Complete svc ℓ.request.key ℓ.history.replies

variable {svc : Service} {lab : Label} {ℓ ℓ' : Life}

theorem Routed.new (h : ℕ) : (new h).Routed svc := by
  constructor <;> simp [Life.new]

theorem take_succ_of_getElem? {route : List ℕ} {n r : ℕ} (h : route[n]? = some r) :
    route.take n ++ [r] = route.take (n + 1) := by
  rw [List.take_add_one, h]
  rfl

theorem lt_of_getElem? {route : List ℕ} {n r : ℕ} (h : route[n]? = some r) : n < route.length :=
  (List.getElem?_eq_some_iff.mp h).1

theorem eq_of_some_place {p p' : Place} {outbox outbox' : Outbox}
    (h : some (p', outbox') = some (p, outbox)) : p = p' :=
  (Prod.mk.inj (Option.some.inj h)).1.symm

theorem Due.le {route handed : List ℕ} {n r : ℕ} (h : Due route handed n r) :
    n ≤ route.length ∧ handed = route.take n :=
  ⟨(lt_of_getElem? h.1).le, h.2⟩

theorem nextItem_own (hs : Own svc lab ℓ ℓ') (h : ¬ ℓ.request.handler.arriving) :
    ℓ'.nextItem svc = ℓ.nextItem svc ∧ ℓ'.request.key = ℓ.request.key := by
  rcases hs.request with hq | ⟨hkey, hbody, -, hq | hid⟩
  · exact absurd (by rw [hq]; rfl) h
  · exact absurd (by rw [hq]; rfl) h
  · refine ⟨?_, hkey⟩
    rw [nextItem, nextItem, taskAfter, taskAfter, hid, hbody, hkey, hs.self, hs.history.1]

theorem Routed.located_own (h : ℓ.Routed svc) (hn : ℓ.Notified) (hf : ℓ.Filed)
    (hs : Own svc lab ℓ ℓ') {p : Place} {outbox : Outbox} (hp : ℓ'.carried = some (p, outbox)) :
    ∃ route, svc.senders ℓ'.request.key = some route ∧
      Located route ℓ'.history.handed ℓ'.history.replies.length (ℓ'.nextItem svc) p := by
  obtain ⟨hreplies, hhanded, -⟩ := hs.history
  rcases hs.carried with heq | ⟨hq, route, r, hroute, hr, hqueued, -⟩
  · rw [heq] at hp
    have harrived : ¬ ℓ.request.handler.arriving := by
      intro ha
      rw [(hn.arriving ha).1] at hp
      cases hp
    obtain ⟨hitem, hkey⟩ := nextItem_own hs harrived
    rw [hreplies, hhanded, hitem, hkey]
    exact h.located hp
  · rw [hqueued] at hp
    cases hp
    obtain ⟨hnone, hnil⟩ := hf.arriving (by rw [hq]; rfl)
    rw [hreplies, hhanded, hnone, hnil]
    rcases hs.request with habsent | ⟨hkey, -⟩
    · rw [habsent] at hq
      cases hq
    · rw [hkey]
      exact ⟨route, hroute, hr, rfl⟩

theorem Routed.located_served (h : ℓ.Routed svc) (hf : ℓ.Filed) (hs : Served svc lab ℓ ℓ')
    {p : Place} {outbox : Outbox} (hp : ℓ'.carried = some (p, outbox)) :
    ∃ route, svc.senders ℓ'.request.key = some route ∧
      Located route ℓ'.history.handed ℓ'.history.replies.length (ℓ'.nextItem svc) p := by
  cases hs
  case fetch r task hp₀ htask =>
    obtain rfl := eq_of_some_place hp
    obtain ⟨route, hroute, hdue⟩ := h.located hp₀
    have htask' := hf.task htask (by simp [hp₀])
    refine ⟨route, hroute, hdue, ?_⟩
    rw [htask']
    rfl
  case write r item hp₀ =>
    obtain rfl := eq_of_some_place hp
    obtain ⟨route, hroute, ⟨hr, hhanded⟩, hitem⟩ := h.located hp₀
    have htake := take_succ_of_getElem? hr
    rw [← hhanded] at htake
    exact ⟨route, hroute, hr, htake, hitem⟩
  case giveBack r item hp₀ =>
    obtain rfl := eq_of_some_place hp
    obtain ⟨route, hroute, hdue, -⟩ := h.located hp₀
    exact ⟨route, hroute, hdue.le⟩
  case readReply r item code data hp₀ =>
    obtain rfl := eq_of_some_place hp
    obtain ⟨route, hroute, hr, hhanded, -⟩ := h.located hp₀
    have hlength : (ℓ.history.replies ++ [(code, data)]).length = ℓ.history.replies.length + 1 :=
      List.length_append
    refine ⟨route, hroute, ?_⟩
    change (ℓ.history.replies ++ [(code, data)]).length ≤ _ ∧
      ℓ.history.handed = route.take (ℓ.history.replies ++ [(code, data)]).length
    rw [hlength]
    exact ⟨lt_of_getElem? hr, hhanded⟩
  case sendNext task route r hroute hr hp₀ htask =>
    obtain rfl := eq_of_some_place hp
    obtain ⟨route', hroute', hdue⟩ := h.located hp₀
    have htask' := hf.task htask (by simp [hp₀])
    obtain ⟨hstage, hkey, -⟩ := Task.after_fields ℓ.request.body ℓ.request.key ℓ.self
      ℓ.history.replies
    rw [htask', taskAfter, hkey, hroute'] at hroute
    rw [htask', taskAfter, hstage] at hr
    cases hroute
    exact ⟨route, hroute', hr, hdue.2⟩
  case lookup p₀ event todo hp₀ =>
    obtain rfl := eq_of_some_place hp
    exact h.located hp₀
  case push p₀ event todo hp₀ hopen =>
    obtain rfl := eq_of_some_place hp
    exact h.located hp₀
  case pushClosed p₀ event todo hp₀ hclosed =>
    obtain rfl := eq_of_some_place hp
    exact h.located hp₀
  -- the id goes on to a place of the same kind, or is gone
  all_goals first
    | (cases hp; done)
    | have hp₀ := ‹ℓ.carried = some (_, Outbox.empty)›
      obtain rfl := eq_of_some_place hp
      obtain ⟨route, hroute, hlocated⟩ := h.located hp₀
      exact ⟨route, hroute, hlocated⟩

theorem Routed.handed_served (h : ℓ.Routed svc) (hs : Served svc lab ℓ ℓ')
    (hne : ℓ'.history.handed ≠ []) : ∃ route, svc.senders ℓ'.request.key = some route ∧
      ℓ'.history.handed <+: route := by
  cases hs
  case write r item hp =>
    obtain ⟨route, hroute, ⟨hr, hhanded⟩, -⟩ := h.located hp
    refine ⟨route, hroute, ?_⟩
    change ℓ.history.handed ++ [r] <+: route
    rw [hhanded, take_succ_of_getElem? hr]
    exact List.take_prefix _ _
  all_goals exact h.handed hne

theorem complete_of_finished (h : ℓ.Routed svc) (hf : ℓ.Filed) {task : Task} {route : List ℕ}
    {outbox : Outbox} (hp : ℓ.carried = some (.toSend, outbox)) (htask : ℓ.entry = some task)
    (hroute : svc.senders task.route = some route) (hr : route[task.stage]? = none) :
    Complete svc ℓ.request.key ℓ.history.replies := by
  obtain ⟨route', hroute', hle, -⟩ := h.located hp
  have htask' := hf.task htask (by simp [hp])
  obtain ⟨hstage, hkey, -⟩ := Task.after_fields ℓ.request.body ℓ.request.key ℓ.self
    ℓ.history.replies
  rw [htask', taskAfter, hkey, hroute'] at hroute
  rw [htask', taskAfter, hstage, List.getElem?_eq_none_iff] at hr
  cases hroute
  have hlength : ℓ.history.replies.length = route.length := le_antisymm hle hr
  have hne : ℓ.history.replies ≠ [] := by
    intro hnil
    rw [hnil] at hlength
    rw [List.eq_nil_of_length_eq_zero hlength.symm] at hroute'
    exact svc.senders_ne_nil _ hroute'
  obtain ⟨earlier, ⟨code, data⟩, hreplies⟩ := (List.eq_nil_or_concat' _).resolve_left hne
  have hnormal := hf.serving hp rfl
  refine ⟨earlier, code, data, hreplies, ?_, Or.inr ⟨route, hroute', hlength⟩⟩
  intro reply hreply
  apply hnormal
  rw [hreplies]
  exact List.mem_append_left _ hreply

theorem Routed.finishing_served (h : ℓ.Routed svc) (hf : ℓ.Filed) (hs : Served svc lab ℓ ℓ')
    {p : Place} {outbox : Outbox} (hp : ℓ'.carried = some (p, outbox)) (hp' : p.finishing) :
    Complete svc ℓ'.request.key ℓ'.history.replies := by
  cases hs
  case report code data task given hcode hp₀ hentry =>
    obtain ⟨earlier, hreplies, hnormal, -⟩ := hf.answered hp₀
    exact ⟨earlier, code, data, hreplies, hnormal, Or.inl hcode⟩
  case sendFinished task route hroute hr hp₀ htask =>
    have hcomplete := complete_of_finished h hf hp₀ htask hroute hr
    exact hcomplete
  case lookup p₀ event todo hp₀ =>
    obtain rfl := eq_of_some_place hp
    exact h.finishing hp₀ hp'
  case push p₀ event todo hp₀ hopen =>
    obtain rfl := eq_of_some_place hp
    exact h.finishing hp₀ hp'
  case pushClosed p₀ event todo hp₀ hclosed =>
    obtain rfl := eq_of_some_place hp
    exact h.finishing hp₀ hp'
  case take hp₀ hnotifier => exact h.finishing hp₀ rfl
  case checkClosed hp₀ hclosed => exact h.finishing hp₀ rfl
  case checkOpen hp₀ hopen => exact h.finishing hp₀ rfl
  case remove hp₀ => exact h.finishing hp₀ rfl
  all_goals cases hp <;> cases hp'

theorem Routed.own (h : ℓ.Routed svc) (hn : ℓ.Notified) (hf : ℓ.Filed) (hs : Own svc lab ℓ ℓ') :
    ℓ'.Routed svc := by
  obtain ⟨hreplies, hhanded, -⟩ := hs.history
  have hkey : ℓ.history.handed ≠ [] ∨ ℓ.carried ≠ none ∨ ℓ.oneshot.sent = true →
      ℓ'.request.key = ℓ.request.key := by
    intro hserved
    apply (nextItem_own hs ?_).2
    intro ha
    rcases hserved with hserved | hserved | hserved
    · exact hserved (hf.arriving ha).2
    · exact hserved (hn.arriving ha).1
    · rw [(hn.arriving ha).2] at hserved
      cases hserved
  constructor
  case located => exact h.located_own hn hf hs
  case handed =>
    intro hne
    rw [hhanded] at hne ⊢
    rw [hkey (Or.inl hne)]
    exact h.handed hne
  case finishing =>
    intro p outbox hp hp'
    rcases hs.carried with heq | ⟨-, route, r, -, -, hqueued, -⟩
    · rw [heq] at hp
      rw [hkey (Or.inr (Or.inl (by simp [hp]))), hreplies]
      exact h.finishing hp hp'
    · rw [hqueued] at hp
      cases hp
      cases hp'
  case sent =>
    intro hsent
    rw [hs.sent] at hsent
    rw [hkey (Or.inr (Or.inr hsent)), hreplies]
    exact h.sent hsent

theorem Routed.served (h : ℓ.Routed svc) (hn : ℓ.Notified) (hf : ℓ.Filed)
    (hs : Served svc lab ℓ ℓ') : ℓ'.Routed svc where
  located := h.located_served hf hs
  handed := h.handed_served hs
  finishing := h.finishing_served hf hs
  sent := by
    intro hsent
    cases hs
    case signal hp hopen => exact h.finishing hp rfl
    case readReply hp =>
      rw [hn.sent hsent] at hp
      cases hp
    all_goals exact h.sent hsent

theorem Routed.step (h : ℓ.Routed svc) (hn : ℓ.Notified) (hf : ℓ.Filed)
    (hs : Step svc lab ℓ ℓ') : ℓ'.Routed svc := by
  rcases hs with hs | hs | ⟨-, hs⟩
  · exact h.own hn hf hs
  · exact h.served hn hf hs
  · obtain ⟨events, buffer, rfl⟩ := hs.frame
    exact { h with }

end Life

namespace State

variable {svc : Service} {ok : State → Action → Prop} {s : State}

theorem notified_of_run (hs : FreshRun svc ok s) (h : ℕ) : (s.life h).Notified :=
  life_always Life.Notified Life.Notified.new (fun hlife hinv => hinv.step hlife) hs h

theorem filed_of_run (hs : FreshRun svc ok s) (h : ℕ) : (s.life h).Filed :=
  life_invariant Life.Filed Life.Filed.new
    (fun hrun _ _ hlife hinv => hinv.step (notified_of_run hrun _) hlife) hs h

theorem routed_of_run (hs : FreshRun svc ok s) (h : ℕ) : (s.life h).Routed svc :=
  life_invariant (fun ℓ => ℓ.Routed svc) Life.Routed.new
    (fun hrun _ _ hlife hinv => hinv.step (notified_of_run hrun _) (filed_of_run hrun _) hlife) hs h

end State

end Mosec
