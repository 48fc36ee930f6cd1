import Mosec.Pipeline
import Mosec.ShmService

namespace Mosec

def Task.RefersTo (svc : Service) (task : Task) (key : Bytes) : Prop :=
  task.code = .Normal ∧ task.data = key ∧
    ∃ route, svc.senders task.route = some route ∧ 0 < task.stage ∧ task.stage < route.length

def Place.inFlight : Place → Bool
  | .framed _ _ => true
  | .working _ _ => true
  | .answered _ _ => true
  | _ => false

namespace Life

inductive Refers (svc : Service) (ℓ : Life) : Bytes → Prop
  | filed {task : Task} {key : Bytes}
      (hplace : ∀ p outbox, ℓ.carried = some (p, outbox) → p.inFlight = false)
      (hentry : ℓ.entry = some task) (href : task.RefersTo svc key) : Refers svc ℓ key
  | framed {r : ℕ} {item : Item} {outbox : Outbox}
      (hp : ℓ.carried = some (.framed r item, outbox)) (hitem : item.isIngress = false) :
      Refers svc ℓ item.data
  | answered {data : Bytes} {outbox : Outbox} {route : List ℕ}
      (hp : ℓ.carried = some (.answered .Normal data, outbox))
      (hroute : svc.senders ℓ.request.key = some route)
      (hlt : ℓ.history.replies.length < route.length) : Refers svc ℓ data

/-- A step of a submission leaves a reference behind: the task is taken out of the table, or it
is not there any more when its frame cannot be written or its reply comes. -/
inductive Discards (svc : Service) (ℓ ℓ' : Life) : Bytes → Prop
  | removed {task : Task} {key : Bytes}
      (hplace : ∀ p outbox, ℓ.carried = some (p, outbox) → p.inFlight = false)
      (hentry : ℓ.entry = some task) (href : task.RefersTo svc key) (hgone : ℓ'.entry = none) :
      Discards svc ℓ ℓ' key
  | unwritten {r : ℕ} {item : Item} {outbox outbox' : Outbox}
      (hp : ℓ.carried = some (.framed r item, outbox)) (hgone : ℓ.entry = none)
      (hp' : ℓ'.carried = some (.toSend, outbox')) : Discards svc ℓ ℓ' item.data
  | late {data : Bytes} {outbox outbox' : Outbox}
      (hp : ℓ.carried = some (.answered .Normal data, outbox)) (hgone : ℓ.entry = none)
      (hp' : ℓ'.carried = some (.toSend, outbox')) : Discards svc ℓ ℓ' data

inductive Hands (ℓ ℓ' : Life) : Bytes → Prop
  | written {r : ℕ} {item : Item} {outbox outbox' : Outbox}
      (hp : ℓ.carried = some (.framed r item, outbox)) (hitem : item.isIngress = false)
      (hp' : ℓ'.carried = some (.working r item, outbox')) : Hands ℓ ℓ' item.data

variable {svc : Service} {lab : Label} {ℓ ℓ' : Life} {key : Bytes}

theorem isIngress_itemFor (id : UInt32) (task : Task) :
    (itemFor svc id task).isIngress = decide (task.stage = 0) :=
  decide_eq_decide.mpr (task.encodeState_bits _).1

theorem code_after {data : Bytes} {route : String} {now : ℕ} {replies : List (TaskCode × Bytes)}
    (hnil : replies ≠ []) (hnormal : Normals replies) :
    (Task.after data route now replies).code = .Normal := by
  induction replies using List.reverseRecOn with
  | nil => exact absurd rfl hnil
  | append_singleton replies reply ih =>
    rw [Task.after_append]
    exact hnormal reply (by simp)

theorem refersTo_taskAfter {route : List ℕ} (hroute : svc.senders ℓ.request.key = some route)
    {replies : List (TaskCode × Bytes)} (hnil : replies ≠ []) (hnormal : Normals replies)
    (hlt : replies.length < route.length) :
    (ℓ.taskAfter replies).RefersTo svc (ℓ.taskAfter replies).data := by
  obtain ⟨hstage, hkey, -⟩ := Task.after_fields ℓ.request.body ℓ.request.key ℓ.self replies
  refine ⟨code_after hnil hnormal, rfl, route, ?_, ?_, ?_⟩
  · rw [taskAfter, hkey]
    exact hroute
  · rw [taskAfter, hstage]
    exact List.length_pos_iff.mpr hnil
  · rw [taskAfter, hstage]
    exact hlt

theorem Refers.own (h : ℓ.Refers svc key) (hn : ℓ.Notified) (hf : ℓ.Filed)
    (hs : Own svc lab ℓ ℓ') : ℓ'.Refers svc key ∨ Discards svc ℓ ℓ' key := by
  cases h with
  | filed hplace hentry href =>
    cases hs
    case insertTask hq =>
      rw [hf.unfiled (by rw [hq]; rfl)] at hentry
      cases hentry
    case accept hq hroute hr hnone =>
      refine .inl (.filed ?_ hentry href)
      intro p outbox hp
      cases hp
      rfl
    case takeTask => exact .inr (.removed hplace hentry href rfl)
    case deleteTask => exact .inr (.removed hplace hentry href rfl)
    all_goals exact .inl (.filed hplace hentry href)
  | framed hp hitem =>
    cases hs
    case accept hq hroute hr hnone =>
      rw [hnone] at hp
      cases hp
    all_goals exact .inl (.framed hp hitem)
  | answered hp hroute hlt =>
    cases hs
    case accept hq _ hr hnone =>
      rw [hnone] at hp
      cases hp
    case refuse hq =>
      rw [(hn.arriving (by rw [hq]; rfl)).1] at hp
      cases hp
    case submit =>
      have hq : ℓ.request.handler = .absent := by assumption
      rw [(hn.arriving (by rw [hq]; rfl)).1] at hp
      cases hp
    all_goals exact .inl (.answered hp hroute hlt)

theorem Refers.relay (h : ℓ.Refers svc key) {p : Place} {outbox outbox' : Outbox}
    (hp : ℓ.carried = some (p, outbox)) (hp' : ℓ'.carried = some (p, outbox'))
    (hentry : ℓ'.entry = ℓ.entry) (hrequest : ℓ'.request = ℓ.request)
    (hhistory : ℓ'.history = ℓ.history) : ℓ'.Refers svc key := by
  cases h with
  | filed hplace htask href =>
    refine .filed ?_ (hentry.trans htask) href
    intro p' outbox'' hp''
    cases hp'.symm.trans hp''
    exact hplace _ _ hp
  | framed hframed hitem =>
    cases hp.symm.trans hframed
    exact .framed hp' hitem
  | answered hanswered hroute hlt =>
    cases hp.symm.trans hanswered
    rw [← hrequest] at hroute
    rw [← hhistory] at hlt
    exact .answered hp' hroute hlt

theorem Refers.served_filed {task : Task}
    (hplace : ∀ p outbox, ℓ.carried = some (p, outbox) → p.inFlight = false)
    (hentry : ℓ.entry = some task) (href : task.RefersTo svc key) (hs : Served svc lab ℓ ℓ') :
    ℓ'.Refers svc key ∨ Discards svc ℓ ℓ' key := by
  have hrefers : ℓ.Refers svc key := .filed hplace hentry href
  cases hs
  case fetch r task' hp hentry' =>
    obtain rfl : task = task' := Option.some.inj (hentry.symm.trans hentry')
    obtain ⟨hcode, hdata, route, hroute, hpos, hlt⟩ := href
    have hframed : (itemFor svc ℓ.request.id task).isIngress = false := by
      rw [isIngress_itemFor]
      exact decide_eq_false hpos.ne'
    rw [← hdata]
    exact .inl (.framed rfl hframed)
  case skip hp hnone =>
    rw [hnone] at hentry
    cases hentry
  case sendMissing hp hnone =>
    rw [hnone] at hentry
    cases hentry
  case remove hp => exact .inr (.removed hplace hentry href rfl)
  case write hp => cases hplace _ _ hp
  case giveBack hp => cases hplace _ _ hp
  case readEvents hnormal hp => cases hplace _ _ hp
  case readReply hp => cases hplace _ _ hp
  case update hp => cases hplace _ _ hp
  case report hcode hp _ => cases hplace _ _ hp
  case ignore hcode hp _ => cases hplace _ _ hp
  case lookup hp => exact .inl (hrefers.relay hp rfl rfl rfl rfl)
  case push hp _ => exact .inl (hrefers.relay hp rfl rfl rfl rfl)
  case pushClosed hp _ => exact .inl (hrefers.relay hp rfl rfl rfl rfl)
  all_goals
    refine .inl (.filed ?_ hentry href)
    intro p' outbox hp'
    cases hp'
    try rfl

theorem Refers.served_framed {r : ℕ} {item : Item} {outbox : Outbox} (hf : ℓ.Filed)
    (hr : ℓ.Routed svc) (hp : ℓ.carried = some (.framed r item, outbox))
    (hitem : item.isIngress = false) (hs : Served svc lab ℓ ℓ') :
    ℓ'.Refers svc item.data ∨ Discards svc ℓ ℓ' item.data ∨ Hands ℓ ℓ' item.data := by
  have hrefers : ℓ.Refers svc item.data := .framed hp hitem
  cases hs
  case write hp' =>
    cases hp.symm.trans hp'
    exact .inr (.inr (.written hp hitem rfl))
  case giveBack hp' =>
    cases hp.symm.trans hp'
    cases hentry : ℓ.entry with
    | none => exact .inr (.inl (.unwritten hp hentry rfl))
    | some task =>
      obtain ⟨route, hroute, ⟨hdue, -⟩, hnext⟩ := hr.located hp
      have hfiled := hf.task hentry (by simp [hp])
      have hdata : item.data = task.data := by rw [hnext, hfiled]; rfl
      have hnil : ℓ.history.replies ≠ [] := by
        intro hnil
        rw [hnext, nextItem, isIngress_itemFor, taskAfter, hnil] at hitem
        cases hitem
      have href := refersTo_taskAfter hroute hnil (hf.serving hp rfl) (lt_of_getElem? hdue)
      rw [hdata]
      refine .inl (.filed ?_ hentry (hfiled ▸ href))
      intro p outbox' hp''
      cases hp''
      rfl
  case lookup hp' => exact .inl (hrefers.relay hp' rfl rfl rfl rfl)
  case push hp' _ => exact .inl (hrefers.relay hp' rfl rfl rfl rfl)
  case pushClosed hp' _ => exact .inl (hrefers.relay hp' rfl rfl rfl rfl)
  case lose p outbox' hrisk hp' hsignal =>
    cases hp.symm.trans hp'
    cases hrisk
  all_goals simp_all

theorem Refers.served_answered {data : Bytes} {outbox : Outbox} {route : List ℕ} (hf : ℓ.Filed)
    (hp : ℓ.carried = some (.answered .Normal data, outbox))
    (hroute : svc.senders ℓ.request.key = some route)
    (hlt : ℓ.history.replies.length < route.length) (hs : Served svc lab ℓ ℓ') :
    ℓ'.Refers svc data ∨ Discards svc ℓ ℓ' data := by
  have hrefers : ℓ.Refers svc data := .answered hp hroute hlt
  cases hs
  case update hp' =>
    cases hp.symm.trans hp'
    cases hentry : ℓ.entry with
    | none => exact .inr (.late hp hentry rfl)
    | some task =>
      obtain ⟨earlier, hreplies, hnormal, htask⟩ := hf.answered hp
      have hafter : task.update .Normal data = ℓ.taskAfter ℓ.history.replies := by
        rw [htask task hentry, hreplies]
        exact (Task.after_append ..).symm
      have hnormals : Normals ℓ.history.replies := by
        rw [hreplies]
        intro reply hreply
        cases List.mem_append.mp hreply with
        | inl h => exact hnormal reply h
        | inr h => rw [List.mem_singleton.mp h]
      have href := refersTo_taskAfter hroute (by rw [hreplies]; simp) hnormals hlt
      rw [← hafter] at href
      refine .inl (.filed ?_ ?_ href)
      · intro p outbox' hp''
        cases hp''
        rfl
      · rfl
  case lookup hp' => exact .inl (hrefers.relay hp' rfl rfl rfl rfl)
  case push hp' _ => exact .inl (hrefers.relay hp' rfl rfl rfl rfl)
  case pushClosed hp' _ => exact .inl (hrefers.relay hp' rfl rfl rfl rfl)
  case lose p outbox' hrisk hp' hsignal =>
    cases hp.symm.trans hp'
    cases hrisk
  all_goals simp_all

theorem Refers.step (h : ℓ.Refers svc key) (hn : ℓ.Notified) (hf : ℓ.Filed) (hr : ℓ.Routed svc)
    (hs : Step svc lab ℓ ℓ') :
    ℓ'.Refers svc key ∨ Discards svc ℓ ℓ' key ∨ Hands ℓ ℓ' key := by
  rcases hs with hs | hs | ⟨-, hs⟩
  · exact (h.own hn hf hs).imp_right Or.inl
  · cases h with
    | filed hplace hentry href =>
      exact (Refers.served_filed hplace hentry href hs).imp_right Or.inl
    | framed hp hitem => exact Refers.served_framed hf hr hp hitem hs
    | answered hp hroute hlt =>
      exact (Refers.served_answered hf hp hroute hlt hs).imp_right Or.inl
  · obtain ⟨events, buffer, rfl⟩ := hs.frame
    cases h with
    | filed hplace hentry href => exact Or.inl (.filed hplace hentry href)
    | framed hp hitem => exact Or.inl (.framed hp hitem)
    | answered hp hroute hlt => exact Or.inl (.answered hp hroute hlt)

end Life

end Mosec
