import Mosec.Responses
import Mosec.Stages

namespace Mosec

structure Response where
  status : ℕ
  content : Bytes
  deriving DecidableEq, Repr

def ascii (text : String) : Bytes := text.toList.map fun c => UInt8.ofNat c.toNat

def responseEmpty : Bytes := ascii "no data provided"

def TaskCode.status : TaskCode → ℕ
  | .Normal => 200
  | .BadRequestError => 400
  | .ValidationError => 422
  | .TimeoutError => 408
  | _ => 500

namespace ServiceError

def display : ServiceError → String
  | .Timeout => "inference timeout"
  | .TooManyRequests => "too many request: task queue is full"
  | .UnknownError => "mosec unknown error"

def status : ServiceError → ℕ
  | .TooManyRequests => 429
  | .Timeout => 408
  | _ => 500

end ServiceError

def Request.response (q : Request) : Option Response :=
  match q.isSse, q.handler with
  | false, .done (.task task) => some ⟨task.code.status, task.data⟩
  | false, .done (.error err) => some ⟨err.status, ascii err.display⟩
  | false, .done .noData => some ⟨200, responseEmpty⟩
  | _, _ => none

theorem stateBits (first last : Bool) :
    let state := (if first then ingress else 0) ||| (if last then egress else 0)
    (state.toNat &&& Coordinator.ingress ≠ 0 ↔ first = true) ∧
      (state.toNat &&& Coordinator.egress ≠ 0 ↔ last = true) := by
  revert first last
  decide

theorem Task.encodeState_bits (task : Task) (total : ℕ) :
    ((task.encodeState total).toNat &&& Coordinator.ingress ≠ 0 ↔ task.stage = 0) ∧
      ((task.encodeState total).toNat &&& Coordinator.egress ≠ 0 ↔ total - 1 = task.stage) := by
  have hbits := stateBits (decide (task.stage = 0)) (decide (total - 1 = task.stage))
  simpa only [encodeState, decide_eq_true_eq] using hbits

namespace Stage

variable {V : Type}

def process (stage : Stage V) (first last : Bool) (payload : Bytes) : Bytes :=
  let data := if first then stage.deserialize payload else stage.deserializeIpc payload
  if last then stage.serialize (stage.forward data) else stage.serializeIpc (stage.forward data)

theorem infer_eq_process (stage : Stage V) (task : Task) (total : ℕ) (payload : Bytes) :
    stage.infer (task.encodeState total).toNat payload =
      stage.process (task.stage = 0) (total - 1 = task.stage) payload := by
  obtain ⟨hingress, hegress⟩ := task.encodeState_bits total
  simp only [infer, encode, decode, process, hingress, hegress, decide_eq_true_eq]

def dataAfter (stages : ℕ → Stage V) (route : List ℕ) (body : Bytes) : ℕ → Bytes
  | 0 => body
  | n + 1 =>
    match route[n]? with
    | none => dataAfter stages route body n
    | some r =>
      (stages r).process (n = 0) (route.length - 1 = n) (dataAfter stages route body n)

def forwardAll (stages : ℕ → Stage V) (route : List ℕ) (data : V) : V :=
  route.foldl (fun data r => (stages r).forward data) data

def compose (stages : ℕ → Stage V) (first : ℕ) (rest : List ℕ) (body : Bytes) : Bytes :=
  (stages ((first :: rest).getLast (List.cons_ne_nil first rest))).serialize
    (forwardAll stages (first :: rest) ((stages first).deserialize body))

def Compatible (svc : Service) (stages : ℕ → Stage V) : Prop :=
  ∀ a b, svc.Feeds a b → ∀ data, (stages b).deserializeIpc ((stages a).serializeIpc data) = data

variable {svc : Service} {stages : ℕ → Stage V} {key : String} {first : ℕ} {rest : List ℕ}

theorem forwardAll_take {route : List ℕ} {n r : ℕ} (hr : route[n]? = some r) (data : V) :
    forwardAll stages (route.take (n + 1)) data =
      (stages r).forward (forwardAll stages (route.take n) data) := by
  rw [List.take_add_one, hr, forwardAll, forwardAll, List.foldl_append]
  rfl

theorem dataAfter_succ (hstages : Compatible svc stages)
    (hroute : svc.senders key = some (first :: rest)) (body : Bytes) {n r : ℕ}
    (hr : (first :: rest)[n]? = some r) :
    dataAfter stages (first :: rest) body (n + 1) =
      let data := forwardAll stages ((first :: rest).take (n + 1)) ((stages first).deserialize body)
      if rest.length = n then (stages r).serialize data else (stages r).serializeIpc data := by
  induction n generalizing r with
  | zero =>
    obtain rfl : first = r := by simpa using hr
    simp [dataAfter, process, forwardAll]
  | succ n ih =>
    have hlt : n + 1 < rest.length + 1 := by simpa using (List.getElem?_eq_some_iff.mp hr).1
    obtain ⟨r', hr'⟩ : ∃ r', (first :: rest)[n]? = some r' :=
      ⟨_, List.getElem?_eq_getElem (by simp; omega)⟩
    have hfeeds : svc.Feeds r' r := ⟨key, _, n, hroute, hr', hr⟩
    have hbefore := ih hr'
    rw [if_neg (by omega)] at hbefore
    rw [dataAfter, hr]
    simp only [hbefore, process, Nat.add_eq_zero_iff, Nat.one_ne_zero, and_false, decide_false,
      Bool.false_eq_true, ↓reduceIte, hstages r' r hfeeds, forwardAll_take hr,
      List.length_cons, Nat.add_sub_cancel, decide_eq_true_eq]

theorem dataAfter_length (hstages : Compatible svc stages)
    (hroute : svc.senders key = some (first :: rest)) (body : Bytes) :
    dataAfter stages (first :: rest) body (first :: rest).length =
      compose stages first rest body := by
  have hr : (first :: rest)[rest.length]? =
      some ((first :: rest).getLast (List.cons_ne_nil first rest)) := by
    rw [List.getLast_eq_getElem, List.getElem?_eq_getElem (by simp)]
    rfl
  rw [List.length_cons, dataAfter_succ hstages hroute body hr, if_pos rfl, compose]
  congr 2
  exact List.take_of_length_le le_rfl

end Stage

namespace Life

variable {V : Type} {svc : Service} {stages : ℕ → Stage V} {lab : Label} {ℓ ℓ' : Life}

def Piped (svc : Service) (stages : ℕ → Stage V) (ℓ : Life) : Prop :=
  ∀ route, svc.senders ℓ.request.key = some route → Normals ℓ.history.replies →
    (ℓ.taskAfter ℓ.history.replies).data =
      Stage.dataAfter stages route ℓ.request.body ℓ.history.replies.length

def Computed (stages : ℕ → Stage V) (ℓ : Life) : Label → Prop
  | .reply code data => ∀ r item outbox, ℓ.carried = some (.working r item, outbox) →
    code = .Normal → data = (stages r).infer item.state.toNat item.data
  | _ => True

def Refused (ℓ : Life) : Prop := ℓ.request.handler.outcome = some .noData → ℓ.request.body = []

theorem Refused.new (h : ℕ) : (new h).Refused := fun _ => rfl

theorem Refused.step (h : ℓ.Refused) (hs : Step svc lab ℓ ℓ') : ℓ'.Refused := by
  intro houtcome
  rcases hs with hs | hs | ⟨-, hs⟩
  · cases hs
    case refuse => rfl
    case uncount outcome hq =>
      apply h
      rw [hq]
      exact houtcome
    case receiveEvent => exact h houtcome
    case endStream => exact h houtcome
    case leave => exact h houtcome
    case accept hq hroute hc =>
      by_cases hsse : ℓ.request.isSse <;> simp [goto, carry, hsse, Handler.outcome] at houtcome
    case resume hq hdone =>
      by_cases hsse : ℓ.request.isSse <;> simp [goto, hsse, Handler.outcome] at houtcome
    case deleteTask exit hq =>
      by_cases hsse : ℓ.request.isSse <;> cases exit <;>
        simp [goto, Request.afterDelete, hsse, Handler.outcome] at houtcome
    all_goals cases houtcome
  · obtain ⟨-, hrequest, -⟩ := hs.frame
    rw [hrequest] at houtcome ⊢
    exact h houtcome
  · obtain ⟨events, buffer, rfl⟩ := hs.frame
    exact h houtcome

def Dismissed (ℓ : Life) : Prop := ℓ.request.body = [] → ℓ.request.handler = .absent ∨
  ℓ.request.handler = .done .noData ∧ ℓ.history.handed = [] ∧ ℓ.carried = none

theorem Dismissed.own (h : ℓ.Dismissed) (hn : ℓ.Notified) (hf : ℓ.Filed)
    (hs : Own svc lab ℓ ℓ') : ℓ'.Dismissed := by
  intro hbody
  cases hs
  case refuse hq =>
    have harriving : ℓ.request.handler.arriving := by
      rw [hq]
      rfl
    exact Or.inr ⟨rfl, (hf.arriving harriving).2, (hn.arriving harriving).1⟩
  case submit hne hq => exact absurd hbody hne
  case receiveEvent => exact h hbody
  case endStream => exact h hbody
  case leave => exact h hbody
  all_goals
    exfalso
    have hq := ‹ℓ.request.handler = _›
    rcases h hbody with hq' | ⟨hq', -⟩ <;> rw [hq'] at hq <;> cases hq

theorem Dismissed.step (h : ℓ.Dismissed) (hn : ℓ.Notified) (hf : ℓ.Filed)
    (hs : Step svc lab ℓ ℓ') : ℓ'.Dismissed := by
  rcases hs with hs | hs | ⟨-, hs⟩
  · exact h.own hn hf hs
  · intro hbody
    obtain ⟨p, outbox, hp⟩ := hs.carried
    rw [hs.frame.2.1] at hbody ⊢
    rcases h hbody with hq | ⟨-, -, hnone⟩
    · exact Or.inl hq
    · rw [hnone] at hp
      cases hp
  · obtain ⟨events, buffer, rfl⟩ := hs.frame
    exact h

theorem Piped.new (h : ℕ) : Piped svc stages (new h) := fun _ _ _ => rfl

theorem Piped.of_nil (h : ℓ.history.replies = []) : Piped svc stages ℓ := by
  intro route _ _
  rw [h]
  rfl

theorem Piped.own (h : ℓ.Piped svc stages) (hf : ℓ.Filed) (hs : Own svc lab ℓ ℓ') :
    ℓ'.Piped svc stages := by
  obtain ⟨hreplies, -, -⟩ := hs.history
  by_cases ha : ℓ.request.handler.arriving
  · exact .of_nil (hreplies.trans (hf.arriving ha).1)
  · rcases hs.request with hq | ⟨hkey, hbody, -⟩
    · rw [hq] at ha
      exact absurd rfl ha
    · intro route hroute hnormal
      rw [hreplies] at hnormal ⊢
      rw [hkey] at hroute
      rw [taskAfter, hbody, hkey, hs.self]
      exact h route hroute hnormal

theorem Piped.served (h : ℓ.Piped svc stages) (hf : ℓ.Filed) (hr : ℓ.Routed svc)
    (hs : Served svc lab ℓ ℓ') (hok : ℓ.Computed stages lab) : ℓ'.Piped svc stages := by
  cases hs
  case readReply r item code data hp =>
    intro route hroute hnormal
    replace hnormal : Normals (ℓ.history.replies ++ [(code, data)]) := hnormal
    obtain rfl : code = .Normal := hnormal (code, data) (by simp)
    have hbefore := hf.serving hp rfl
    obtain ⟨route', hroute', hdue, -, hitem⟩ := hr.located hp
    obtain rfl : route' = route := Option.some.inj (hroute'.symm.trans hroute)
    obtain ⟨hstage, hkey, -⟩ := Task.after_fields ℓ.request.body ℓ.request.key ℓ.self
      ℓ.history.replies
    change (ℓ.taskAfter (ℓ.history.replies ++ [(TaskCode.Normal, data)])).data = _
    rw [taskAfter, Task.after_append]
    change data = Stage.dataAfter stages route' ℓ.request.body
      (ℓ.history.replies ++ [(TaskCode.Normal, data)]).length
    rw [List.length_append, List.length_singleton, Stage.dataAfter, hdue,
      hok r item .empty hp rfl, hitem, nextItem, itemFor]
    simp only [taskAfter, hkey, hroute', Option.getD_some]
    rw [Stage.infer_eq_process, hstage, ← h route' hroute' hbefore]
    rfl
  all_goals exact h

theorem Piped.step (h : ℓ.Piped svc stages) (hf : ℓ.Filed) (hr : ℓ.Routed svc)
    (hs : Step svc lab ℓ ℓ') (hok : ℓ.Computed stages lab) : ℓ'.Piped svc stages := by
  rcases hs with hs | hs | ⟨-, hs⟩
  · exact h.own hf hs
  · exact h.served hf hr hs hok
  · obtain ⟨events, buffer, rfl⟩ := hs.frame
    exact h

end Life

namespace State

open Protocol (WellSized)

variable {V : Type} {svc : Service} {stages : ℕ → Stage V} {ok : State → Action → Prop} {s : State}
  {a : Action} {h : ℕ}

def Exchanged (svc : Service) (stages : ℕ → Stage V) (s : State) : Action → Prop
  | .conn k (.readReply code items) =>
    FrameExchange (stages (s.conns k).runtime) (svc.batchSize (s.conns k).runtime)
      (s.conns k).outstanding code items
  | .conn _ (.readErr _ _) => False
  | _ => True

theorem carried_of_outstanding (hs : s.Coherent) {k : ℕ} {item : Item}
    (hitem : item ∈ (s.conns k).outstanding) :
    s.carried item.id =
      some (.working (s.conns k).runtime item, (s.conns k).point.outbox item.id) := by
  have hnodup : (s.conns k).ids.Nodup := hs.exclusive.nodup (.conn k)
  rw [Conn.ids, List.nodup_append] at hnodup
  have hid : item.id ∈ (s.conns k).outstanding.map Item.id := List.mem_map_of_mem hitem
  rw [carried_conn hs.exclusive (List.mem_append_right _ hid)]
  apply view_of_outstanding (Point.itemOf_of_mem hnodup.2.1 hitem)
  exact fun hmem => hnodup.2.2 _ hmem _ hid rfl

theorem computed_of_exchanged (hs : FreshRun svc ok s) (ha : s.Exchanged svc stages a)
    {lab : Label} {ℓ' : Life} (hlab : s.Caused svc a h lab)
    (hlife : Life.Step svc lab (s.life h) ℓ') : (s.life h).Computed stages lab := by
  cases lab with
  | reply code data =>
    have hcoherent := coherent_of_run hs
    obtain ⟨k, items, rfl | rfl, item, hitem, hid, rfl⟩ := hlab
    · intro r item₀ outbox hp hcode
      have hown := owner_of_carried hp
      rw [(FrameExchange.items_eq ha).2 hcode] at hitem
      obtain ⟨sent, hsent, rfl⟩ := List.mem_map.mp hitem
      rw [life_carried hown, ← hid, carried_of_outstanding hcoherent hsent] at hp
      cases hp
      rfl
    · exact ha.elim
  | _ => trivial

theorem piped_of_run (hs : FreshRun svc (Exchanged svc stages) s) (h : ℕ) :
    (s.life h).Piped svc stages :=
  life_invariant (Life.Piped svc stages) Life.Piped.new
    (fun hrun hok hlab hlife hinv => hinv.step (filed_of_run hrun _) (routed_of_run hrun _) hlife
      (computed_of_exchanged hrun hok hlab hlife)) hs h

theorem content_of_task (hs : FreshRun svc (Exchanged svc stages) s)
    (hstages : Stage.Compatible svc stages) {task : Task}
    (htask : (s.requests h).handler.outcome = some (.task task)) (hcode : task.code = .Normal) :
    ∃ first rest, svc.senders (s.requests h).key = some (first :: rest) ∧
      task.data = Stage.compose stages first rest (s.requests h).body := by
  obtain ⟨hsent, rfl⟩ := (concluded_of_run hs h).task htask
  obtain ⟨earlier, code, data, hreplies, hnormal, hend⟩ := (routed_of_run hs h).sent hsent
  rw [Life.taskAfter, hreplies, Task.after_append] at hcode
  obtain rfl : code = .Normal := hcode
  obtain ⟨route, hroute, hlength⟩ := hend.resolve_left (not_not_intro rfl)
  have hnormals : Life.Normals (s.life h).history.replies := by
    intro reply hreply
    rw [hreplies] at hreply
    rcases List.mem_append.mp hreply with hreply | hreply
    · exact hnormal reply hreply
    · rw [List.mem_singleton.mp hreply]
  have hdata := piped_of_run hs h route hroute hnormals
  cases route with
  | nil => exact absurd hroute (svc.senders_ne_nil _)
  | cons first rest =>
    refine ⟨first, rest, hroute, hdata.trans ?_⟩
    rw [hlength]
    exact Stage.dataAfter_length hstages hroute _

theorem refused_of_run (hs : FreshRun svc ok s) (h : ℕ) : (s.life h).Refused :=
  life_always Life.Refused Life.Refused.new (fun hlife hinv => hinv.step hlife) hs h

theorem dismissed_of_run (hs : FreshRun svc ok s) {h : ℕ} (hh : h < s.submitted)
    (hbody : (s.requests h).body = []) : (s.requests h).handler = .done .noData ∧
      (s.manager.history h).handed = [] ∧ ∀ b, ∀ i ∈ s.holds b, s.manager.owner i ≠ some h := by
  have hdismissed : (s.life h).Dismissed :=
    life_invariant Life.Dismissed (fun _ _ => Or.inl rfl)
      (fun hrun _ _ hlife hinv =>
        hinv.step (notified_of_run hrun _) (filed_of_run hrun _) hlife) hs h
  obtain ⟨hq, hhanded, hnone⟩ := (hdismissed hbody).resolve_left (present_of_run hs hh)
  refine ⟨hq, hhanded, fun b i hi hown => ?_⟩
  have hcoherent := coherent_of_run hs
  obtain ⟨rfl, -⟩ := hcoherent.owned hown
  obtain ⟨p, outbox, hp⟩ := carried_of_held hcoherent hown hi
  rw [hnone] at hp
  cases hp

theorem dispatched (hs : FreshRun svc ok s) {k : ℕ} {item : Item}
    (hitem : item ∈ (s.conns k).outstanding) :
    ∃ h route n, s.manager.owner item.id = some h ∧
      svc.senders (s.requests h).key = some route ∧
      (s.manager.history h).replies.length = n ∧ route[n]? = some (s.conns k).runtime ∧
      (item.state.toNat &&& Coordinator.ingress ≠ 0 ↔ n = 0) ∧
      (item.state.toNat &&& Coordinator.egress ≠ 0 ↔ n + 1 = route.length) := by
  have hcoherent := coherent_of_run hs
  have hheld : item.id ∈ s.holds (.conn k) :=
    List.mem_append_right _ (List.mem_map_of_mem hitem)
  obtain ⟨h, hown⟩ := Option.isSome_iff_exists.mp (hcoherent.held hheld)
  have hid := (hcoherent.owned hown).1
  have hcarried := carried_of_outstanding hcoherent hitem
  rw [← hid, ← life_carried (by rw [hid]; exact hown)] at hcarried
  obtain ⟨route, hroute, hr, -, hnext⟩ := (routed_of_run hs h).located hcarried
  obtain ⟨hstage, hkey, -⟩ := Task.after_fields (s.life h).request.body (s.life h).request.key
    (s.life h).self (s.life h).history.replies
  have hlt : (s.manager.history h).replies.length < route.length := Life.lt_of_getElem? hr
  have hstate : item.state = ((s.life h).taskAfter (s.life h).history.replies).encodeState
      route.length := by
    rw [hnext, Life.nextItem, Life.itemFor]
    simp only [Life.taskAfter, hkey, hroute, Option.getD_some]
  obtain ⟨hingress, hegress⟩ := Task.encodeState_bits
    ((s.life h).taskAfter (s.life h).history.replies) route.length
  replace hstage : ((s.life h).taskAfter (s.life h).history.replies).stage =
      (s.manager.history h).replies.length := hstage
  rw [← hstate, hstage] at hingress hegress
  refine ⟨h, route, _, hown, hroute, rfl, hr, hingress, hegress.trans ?_⟩
  omega

/-- The response to a request is what its route computes, and in every batch each item is decoded
and encoded as its own place in its own route says. A request without a body is answered at once,
and no queue and no worker ever has it. -/
theorem responses_compose (hs : FreshRun svc (Exchanged svc stages) s)
    (hstages : Stage.Compatible svc stages) :
    (∀ h content, (s.requests h).body ≠ [] → (s.requests h).response = some ⟨200, content⟩ →
      ∃ first rest, svc.senders (s.requests h).key = some (first :: rest) ∧
        content = Stage.compose stages first rest (s.requests h).body) ∧
    (∀ k, ∀ item ∈ (s.conns k).outstanding, ∃ h route n, s.manager.owner item.id = some h ∧
      svc.senders (s.requests h).key = some route ∧
      (s.manager.history h).replies.length = n ∧ route[n]? = some (s.conns k).runtime ∧
      ∀ (calls : WorkerCalls V V) (i : ℕ),
        Coordinator.decode calls i item.data item.state.toNat =
          (if n = 0 then calls.deserialize i item.data else calls.deserializeIpc i item.data) ∧
        ∀ data, Coordinator.encode calls i data item.state.toNat =
          if n + 1 = route.length then calls.serialize i data else calls.serializeIpc i data) ∧
    ∀ h < s.submitted, (s.requests h).isSse = false → (s.requests h).body = [] →
      (s.requests h).response = some ⟨200, responseEmpty⟩ ∧
      (s.manager.history h).handed = [] ∧ ∀ b, ∀ i ∈ s.holds b, s.manager.owner i ≠ some h := by
  refine ⟨?_, ?_, ?_⟩
  · intro h content hbody hresponse
    unfold Request.response at hresponse
    split at hresponse
    case h_1 task hsse hq =>
      obtain ⟨hstatus, rfl⟩ := Response.mk.inj (Option.some.inj hresponse)
      apply content_of_task hs hstages
      · rw [hq]
        rfl
      · cases hcode : task.code <;> first | rfl | simp [TaskCode.status, hcode] at hstatus
    case h_2 err hsse hq =>
      obtain ⟨hstatus, -⟩ := Response.mk.inj (Option.some.inj hresponse)
      cases err <;> simp [ServiceError.status] at hstatus
    case h_3 hsse hq =>
      have hrefused := refused_of_run hs h
      apply absurd (hrefused _) hbody
      change (s.requests h).handler.outcome = _
      rw [hq]
      rfl
    case h_4 => cases hresponse
  · intro k item hitem
    obtain ⟨h, route, n, hown, hroute, hn, hr, hingress, hegress⟩ := dispatched hs hitem
    refine ⟨h, route, n, hown, hroute, hn, hr, fun calls i => ⟨?_, fun data => ?_⟩⟩
    · simp only [Coordinator.decode, hingress]
    · simp only [Coordinator.encode, hegress]
  · intro h hh hsse hbody
    obtain ⟨hq, hnever⟩ := dismissed_of_run hs hh hbody
    refine ⟨?_, hnever⟩
    rw [Request.response, hsse, hq]

def exchanges (svc : Service) (stages : ℕ → Stage V) (s : State) : Action → Bool
  | .conn k (.readReply code items) =>
    let sent := (s.conns k).outstanding
    let payload (item : Item) := (stages (s.conns k).runtime).infer item.state.toNat item.data
    code = .Normal ∧ items = sent.map (fun item => { item with data := payload item }) ∧
      (svc.batchSize (s.conns k).runtime > 1 ∨ sent.length = 1) ∧ sent.length < 2 ^ 16 ∧
      ∀ item ∈ sent, item.data.length < 2 ^ 32 ∧ (payload item).length < 2 ^ 32
  | .conn _ (.readErr _ _) => false
  | _ => true

theorem exchanged_of_exchanges (ht : s.exchanges svc stages a) : s.Exchanged svc stages a := by
  unfold exchanges at ht
  split at ht
  case h_1 k code items =>
    obtain ⟨rfl, rfl, hbatch, hnum, hitems⟩ := of_decide_eq_true ht
    exact frameExchange_of_sized _ hbatch ⟨hnum, fun item hitem => (hitems item hitem).1⟩
      fun item hitem => (hitems item hitem).2
  case h_2 => cases ht
  case h_3 hreply herr =>
    unfold Exchanged
    split
    · exact (hreply _ _ _ rfl).elim
    · exact (herr _ _ _ rfl).elim
    · trivial

def relay : Service :=
  Config.initFromConfig
    ⟨2, [⟨"first", 1⟩, ⟨"second", 2⟩], [⟨"/", ["first", "second"]⟩, ⟨"/short", ["second"]⟩]⟩
    ⟨by decide, by decide, by decide⟩

def relayStages (r : ℕ) : Stage Bytes where
  deserialize := id
  deserializeIpc := List.tail
  forward data := data ++ [UInt8.ofNat r]
  serialize data := data ++ [0]
  serializeIpc data := 7 :: data

theorem relayStages_compatible : Stage.Compatible relay relayStages := fun _ _ _ _ => rfl

/-- The second runtime gets both requests in one batch, each at its own place of its own route. -/
def relayRun : List Action := List.flatten [
  [.connect 0, .connect 1, .submit false "/" [1], .submit false "/short" [2]],
  List.replicate 4 (.request 0 .run), List.replicate 4 (.request 1 .run),
  [.conn 0 .recv, .conn 0 .run, .conn 0 .writeOk, .conn 0 (.readReply .Normal [⟨0, 1, [7, 1, 0]⟩])],
  List.replicate 4 (.conn 0 .run),
  [.conn 1 .recv, .conn 1 .recv, .conn 1 .run, .conn 1 .writeOk,
    .conn 1 (.readReply .Normal [⟨1, 3, [2, 1, 0]⟩, ⟨0, 2, [1, 0, 1, 0]⟩])],
  List.replicate 10 (.conn 1 .run),
  [.request 0 .resume, .request 0 .run, .request 0 .run],
  [.request 1 .resume, .request 1 .run, .request 1 .run]]

theorem responses_compose_relay : ∃ s, Run relay (Exchanged relay relayStages) s ∧
    (s.requests 0).response = some ⟨200, [1, 0, 1, 0]⟩ ∧
    (s.requests 1).response = some ⟨200, [2, 1, 0]⟩ ∧
    ∃ first rest, relay.senders (s.requests 0).key = some (first :: rest) ∧
      [1, 0, 1, 0] = Stage.compose relayStages first rest (s.requests 0).body := by
  have hview : ((Transition.run (step relay) start relayRun).map fun s =>
      (s.submitted, (s.requests 0).body, (s.requests 0).response, (s.requests 1).response)) =
      some (2, [1], some ⟨200, [1, 0, 1, 0]⟩, some ⟨200, [2, 1, 0]⟩) := by
    decide +kernel
  have hchecked : Transition.checked (step relay) (exchanges relay relayStages) start relayRun := by
    decide +kernel
  obtain ⟨s, -, hrun, hfields⟩ :=
    freshRun_of_checked (fun _ _ => exchanged_of_exchanges) hchecked hview (by decide)
  obtain ⟨hbody, hfields⟩ := Prod.mk.inj hfields
  obtain ⟨hresponse, hshort⟩ := Prod.mk.inj hfields
  have hne : (s.requests 0).body ≠ [] := by
    rw [hbody]
    decide
  exact ⟨s, hrun.mono fun _ _ => And.right, hresponse, hshort,
    (responses_compose hrun relayStages_compatible).1 0 _ hne hresponse⟩

theorem empty_not_composed : ∃ s, Run relay (Exchanged relay relayStages) s ∧
    (s.requests 0).response = some ⟨200, responseEmpty⟩ ∧
    relay.senders (s.requests 0).key = some [0, 1] ∧
    responseEmpty ≠ Stage.compose relayStages 0 [1] (s.requests 0).body := by
  have hview : ((Transition.run (step relay) start [.submit false "/" []]).map fun s =>
      ((s.requests 0).key, (s.requests 0).body, (s.requests 0).response)) =
      some ("/", [], some ⟨200, responseEmpty⟩) := by
    decide +kernel
  have hchecked : Transition.checked (step relay) (exchanges relay relayStages) start
      [.submit false "/" []] := by
    decide +kernel
  obtain ⟨s, -, hrun, hfields⟩ :=
    Transition.Reachable.of_checked (fun _ _ => exchanged_of_exchanges) hchecked hview
  obtain ⟨hkey, hfields⟩ := Prod.mk.inj hfields
  obtain ⟨hbody, hresponse⟩ := Prod.mk.inj hfields
  refine ⟨s, hrun, hresponse, ?_, ?_⟩
  · rw [hkey]
    decide
  · rw [hbody]
    decide

end State

end Mosec
