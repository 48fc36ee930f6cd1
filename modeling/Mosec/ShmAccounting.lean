import Mosec.ShmReferences

namespace Mosec

open Function (update update_self update_of_ne)

def Item.tag (item : Item) : UInt32 × UInt16 := (item.id, item.state)

namespace Point

def next : Point → Next
  | .collect _ => .collect
  | .fetch _ => .collect
  | .write _ => .collect
  | .read _ => .read
  | .update _ _ => .collect
  | .events _ _ _ next => next
  | .late _ _ => .read
  | .work _ next => next
  | .sending _ _ _ next => next
  | .check _ _ _ next => next
  | .signal _ _ _ next => next
  | .remove _ _ next => next
  | .uncount _ _ next => next
  | .closed => .closed
  | .panicked => .closed

end Point

namespace Conn

structure Settled (c : Conn) : Prop where
  jobless : c.point.next = .read → c.point.ids = [] ∧ c.broken = false
  answered : c.point.next ≠ .read → c.outstanding = []

variable {svc : Service} {m m' : TaskManager} {c c' : Conn} {act : ConnAction}
  {touched : List UInt32}

theorem unanswered_eq_nil {outstanding items : List Item}
    (h : items.map Item.id = outstanding.map Item.id) : unanswered outstanding items = [] := by
  rw [unanswered, List.filter_eq_nil_iff]
  intro item hitem
  rw [h, decide_eq_true_eq, not_not]
  exact List.mem_map_of_mem hitem

theorem Settled.answered_of_ids (h : c.Settled) {i : UInt32} (hi : i ∈ c.point.ids) :
    c.point.next ≠ .read ∧ c.outstanding = [] := by
  have hnext : c.point.next ≠ .read := by
    intro hnext
    rw [(h.jobless hnext).1] at hi
    cases hi
  exact ⟨hnext, h.answered hnext⟩

theorem Settled.move (h : c.Settled) (hm : Move svc m c act touched m' c')
    (hreply : ∀ code items, act = .readReply code items →
      items.map Item.id = c.outstanding.map Item.id) : c'.Settled := by
  have hids := fun i => h.answered_of_ids (i := i)
  obtain ⟨hjobless, hanswered⟩ := h
  cases hm
  case readReply hp hcode hnames hnodup =>
    constructor
    · intro hnext
      cases hnext
    · intro _
      exact unanswered_eq_nil (hreply _ _ rfl)
  case recv hp hq hpoint =>
    constructor <;> intro hnext <;> rcases hpoint with rfl | rfl <;> simp_all [Point.next]
  case fetch hpoint hp hitems =>
    constructor <;> intro hnext <;> rcases hpoint with ⟨-, rfl⟩ | rfl <;> simp_all [Point.next]
  case workDone next hp =>
    cases next <;> constructor <;> intro hnext <;> simp_all [Point.next, Point.ids, proceed]
  all_goals
    constructor <;> intro hnext <;> simp_all [Point.next, Point.ids, panic]

theorem Settled.outstanding (h : c.Settled) (hm : Move svc m c act touched m' c')
    (hwrite : act ≠ .writeOk) (hreply : ∀ code items, act ≠ .readReply code items)
    (hread : ∀ code items, act ≠ .readErr code items) :
    c'.outstanding = c.outstanding ∧ c'.broken = c.broken := by
  have hids := fun i => h.answered_of_ids (i := i)
  cases hm
  case writeOk => exact absurd rfl hwrite
  case readReply => exact absurd rfl (hreply _ _)
  case readCut => exact absurd rfl (hread _ _)
  case readErr => exact absurd rfl (hread _ _)
  case writeErr hp => exact ⟨(h.answered (by rw [hp]; exact nofun)).symm, rfl⟩
  case sendPanic hp _ _ => exact ⟨(hids _ (by rw [hp]; exact List.mem_cons_self)).2.symm, rfl⟩
  case signalPanic hp _ => exact ⟨(hids _ (by rw [hp]; exact List.mem_cons_self)).2.symm, rfl⟩
  all_goals exact ⟨rfl, rfl⟩

theorem Move.outstanding (hm : Move svc m c act touched m' c') {item : Item}
    (hitem : item ∈ c'.outstanding) : item ∈ c.outstanding ∨
      act = .writeOk ∧ ∃ items, c.point = .write items ∧ item ∈ items := by
  cases hm
  case writeOk items hp _ =>
    exact (List.mem_append.mp hitem).imp_right fun h => ⟨rfl, items, hp, h⟩
  case writeErr => cases hitem
  case readReply => exact .inl (List.mem_of_mem_filter hitem)
  case readCut => cases hitem
  case readErr => cases hitem
  case sendPanic => cases hitem
  case signalPanic => cases hitem
  all_goals exact .inl hitem

end Conn

inductive Work.Holds : Work → Bytes → Prop
  | toDecode {decoded items : List Item} {item : Item} (hitem : item ∈ items)
      (hingress : item.isIngress = false) : Holds (.decoding decoded items) item.data
  | encoded {encoded items : List Item} {item : Item} (hitem : item ∈ encoded)
      (hegress : item.isEgress = false) : Holds (.encoding encoded items) item.data
  | replied {items : List Item} {item : Item} (hitem : item ∈ items)
      (hegress : item.isEgress = false) : Holds (.replying .Normal items) item.data

namespace ShmService

variable {svc : Service} {j j' : ShmService} {a : ShmAction}

def storing (j : ShmService) (k : ℕ) : Option Bytes :=
  match j.work k with
  | .encoding _ (item :: _) => if item.isEgress then none else j.nextId k
  | _ => none

def fetching (j : ShmService) (k : ℕ) : Option Bytes :=
  match j.work k with
  | .decoding _ (item :: _) => if item.isIngress then none else some item.data
  | _ => none

def stores (j : ShmService) : ShmAction → Option Bytes
  | .encode k _ => j.storing k
  | .raise k true _ _ _ => j.storing k
  | _ => none

def fetches (j : ShmService) : ShmAction → Option Bytes
  | .decode k => j.fetching k
  | .raise k true _ _ _ => j.fetching k
  | _ => none

inductive Move (svc : Service) (j : ShmService) : ShmAction → ShmService → Prop
  | service {a : Action} {s : State} {work : ℕ → Work} (hwork : j.exchange a = some work)
      (hstep : j.state.step svc a = some s) :
      Move svc j (.service a) { j with state := s, work := work }
  | decode {k : ℕ} {decoded items : List Item} {item : Item} {redis : Redis}
      (hk : j.work k = .decoding decoded (item :: items))
      (hredis : redis = if item.isIngress then j.redis else j.redis.getDelete item.data) :
      Move svc j (.decode k) { j with
        redis := redis, work := update j.work k (.decoding (decoded ++ [item]) items) }
  | forward {k : ℕ} {items : List Item} (hk : j.work k = .decoding items []) :
      Move svc j (.forward k) { j with work := update j.work k (.encoding [] items) }
  | prepareNextId {k : ℕ} (hid : j.nextId k = none) :
      Move svc j (.prepareNextId k) { j with
        redis := j.redis.incr
        nextId := update j.nextId k (some (decimal (j.redis.counter + 1))) }
  | encodeEgress {k : ℕ} {encoded items : List Item} {item : Item} (data : Bytes)
      (hk : j.work k = .encoding encoded (item :: items)) (hegress : item.isEgress = true) :
      Move svc j (.encode k data) { j with
        work := update j.work k (.encoding (encoded ++ [{ item with data := data }]) items) }
  | encodeIpc {k : ℕ} {encoded items : List Item} {item : Item} {currentId : Bytes} (data : Bytes)
      (hk : j.work k = .encoding encoded (item :: items)) (hegress : item.isEgress = false)
      (hid : j.nextId k = some currentId) :
      Move svc j (.encode k data) { j with
        redis := j.redis.setIncr currentId data
        nextId := update j.nextId k (some (decimal (j.redis.counter + 1)))
        work := update j.work k (.encoding (encoded ++ [{ item with data := currentId }]) items) }
  | finish {k : ℕ} {items : List Item} (hk : j.work k = .encoding items []) :
      Move svc j (.finish k) { j with work := update j.work k (.replying .Normal items) }
  | raise {k : ℕ} {takesEffect : Bool} {data text : Bytes} {code : TaskCode} {redis : Redis}
      (hcode : code ≠ .Normal) (hidle : j.work k ≠ .idle)
      (hredis : redis = if takesEffect then j.requested k data else j.redis) :
      Move svc j (.raise k takesEffect data code text) { j with
        redis := redis
        work := update j.work k
          (.replying code ((j.work k).items.map fun item => { item with data := text })) }
  | lose {k : ℕ} : Move svc j (.lose k) { j with work := update j.work k .idle }

theorem move_of_step (h : j.step svc a = some j') : Move svc j a j' := by
  cases a with
  | service a =>
    obtain ⟨work, hwork, h⟩ := Option.bind_eq_some_iff.mp h
    obtain ⟨s, hs, rfl⟩ := Option.map_eq_some_iff.mp h
    exact .service hwork hs
  | decode k =>
    simp only [step, ShmService.decode] at h
    split at h
    · rename_i decoded item items hk
      cases h
      by_cases hitem : item.isIngress
      · simp only [hitem, if_true]
        exact .decode hk (by rw [if_pos hitem])
      · simp only [hitem, Bool.false_eq_true, if_false]
        exact .decode hk (by rw [if_neg hitem])
    · cases h
  | forward k =>
    simp only [step, ShmService.forward] at h
    split at h
    · rename_i items hk
      cases h
      exact .forward hk
    · cases h
  | prepareNextId k =>
    simp only [step, ShmService.prepareNextId] at h
    split at h
    · rename_i hid
      split at h
      · cases h
      · cases h
        exact .prepareNextId hid
    · cases h
  | encode k data =>
    simp only [step, ShmService.encode] at h
    split at h
    · rename_i encoded item items hk
      split at h
      · rename_i hegress
        cases h
        exact .encodeEgress data hk hegress
      · rename_i hegress
        split at h
        · cases h
        · rename_i currentId hid
          cases h
          exact .encodeIpc data hk (Bool.eq_false_iff.mpr hegress) hid
    · cases h
  | finish k =>
    simp only [step, ShmService.finish] at h
    split at h
    · rename_i items hk
      cases h
      exact .finish hk
    · cases h
  | raise k takesEffect data code text =>
    simp only [step, ShmService.raise] at h
    split at h
    · cases h
    · rename_i hcode
      have hmove : j.work k ≠ .idle → Move svc j (.raise k takesEffect data code text) _ :=
        fun hidle => .raise (not_or.mp hcode).1 hidle rfl
      split at h
      · rename_i decoded items hk
        cases h
        rw [hk] at hmove
        cases takesEffect <;> exact hmove Work.noConfusion
      · rename_i encoded items hk
        cases h
        rw [hk] at hmove
        cases takesEffect <;> exact hmove Work.noConfusion
      · cases h
  | lose k =>
    cases h
    exact .lose

section Objects

theorem getDelete_object (redis : Redis) (objectId key : Bytes) (h : key ≠ objectId) :
    (redis.getDelete objectId).object key = redis.object key := update_of_ne h _ _

theorem setIncr_object (redis : Redis) (currentId data key : Bytes) (h : key ≠ currentId) :
    (redis.setIncr currentId data).object key = redis.object key := update_of_ne h _ _

theorem getDelete_ipc_object (redis : Redis) (item : Item) (key : Bytes) :
    (if item.isIngress then redis else redis.getDelete item.data).object key =
      if (if item.isIngress then none else some item.data) = some key then none
      else redis.object key := by
  by_cases hitem : item.isIngress
  · simp [hitem]
  · simp only [hitem, Bool.false_eq_true, if_false, Option.some.injEq]
    by_cases hkey : item.data = key
    · rw [if_pos hkey, ← hkey]
      exact update_self _ _ _
    · rw [if_neg hkey, getDelete_object _ _ _ (Ne.symm hkey)]

theorem requested_object (j : ShmService) (k : ℕ) (data : Bytes) {key : Bytes}
    (hstore : j.storing k ≠ some key) : (j.requested k data).object key =
      if j.fetching k = some key then none else j.redis.object key := by
  unfold requested storing fetching at *
  split
  · rename_i item items hk
    simp only [hk]
    exact getDelete_ipc_object _ _ _
  · rename_i item items hk
    simp only [hk] at hstore ⊢
    by_cases hitem : item.isEgress
    · simp [hitem]
    · simp only [hitem, Bool.false_eq_true, if_false] at hstore ⊢
      split
      · simp [Redis.incr]
      · rename_i currentId hid
        rw [hid] at hstore
        simp [setIncr_object _ _ _ _ fun h => hstore (congrArg some h.symm)]
  · rename_i hdecoding hencoding
    split
    · rename_i h
      exact absurd h (hdecoding _ _ _)
    · simp

theorem Move.object (h : Move svc j a j') {key : Bytes} (hstore : j.stores a ≠ some key) :
    j'.redis.object key = if j.fetches a = some key then none else j.redis.object key := by
  cases h with
  | service => simp [fetches]
  | decode hk hredis =>
    rename_i k decoded items item redis
    subst hredis
    simp only [fetches, fetching, hk]
    exact getDelete_ipc_object _ _ _
  | forward => simp [fetches]
  | prepareNextId => simp [fetches, Redis.incr]
  | encodeEgress => simp [fetches]
  | encodeIpc data hk hegress hid =>
    simp only [stores, storing, hk, hegress, hid] at hstore
    simp only [fetches, reduceCtorEq, if_false]
    exact setIncr_object _ _ _ _ fun h => hstore (congrArg some h.symm)
  | finish => simp [fetches]
  | raise hcode hidle hredis =>
    rename_i k takesEffect data text code redis
    subst hredis
    cases takesEffect with
    | false => simp [fetches]
    | true => exact requested_object j k data hstore
  | lose => simp [fetches]

theorem requested_of_storing {k : ℕ} {key : Bytes} (h : j.storing k = some key) (data : Bytes) :
    j.requested k data = j.redis.setIncr key data := by
  unfold storing at h
  split at h
  · rename_i encoded item items hk
    split at h
    · cases h
    · rename_i hegress
      simp only [requested, hk, hegress, Bool.false_eq_true, if_false, h]
  · cases h

/-- An object is stored by an `encode` that returns, or by one that raises all the same. -/
theorem Move.stored (h : Move svc j a j') {key : Bytes} (hstore : j.stores a = some key) :
    ∃ k data, j.storing k = some key ∧ j'.redis = j.redis.setIncr key data ∧
      ((a = .encode k data ∧ (j'.work k).Holds key) ∨
        ∃ text code, a = .raise k true data code text) := by
  cases h with
  | encodeEgress data hk hegress => simp [stores, storing, hk, hegress] at hstore
  | encodeIpc data hk hegress hid =>
    rename_i k encoded items item currentId
    have hkey : currentId = key := by
      simpa [stores, storing, hk, hegress, hid] using hstore
    subst hkey
    refine ⟨k, data, hstore, rfl, .inl ⟨rfl, ?_⟩⟩
    change (update j.work k _ k).Holds currentId
    rw [update_self]
    have hmem : { item with data := currentId } ∈ encoded ++ [{ item with data := currentId }] :=
      List.mem_append_right _ (List.mem_singleton_self _)
    exact .encoded hmem hegress
  | raise hcode hidle hredis =>
    rename_i k takesEffect data text code redis
    cases takesEffect with
    | false => cases hstore
    | true =>
      have hstoring : j.storing k = some key := hstore
      refine ⟨k, data, hstoring, ?_, .inr ⟨text, code, rfl⟩⟩
      change redis = _
      rw [hredis, if_pos rfl, requested_of_storing hstoring]
  | service => cases hstore
  | decode => cases hstore
  | forward => cases hstore
  | prepareNextId => cases hstore
  | finish => cases hstore
  | lose => cases hstore

end Objects

structure Attached (j : ShmService) : Prop where
  unaccepted : j.state.Unaccepted
  settled : ∀ k, (j.state.conns k).Settled
  absent : ∀ k, j.state.connected ≤ k → j.work k = .idle
  batch : ∀ k, j.work k ≠ .idle → (j.state.conns k).broken = false →
    (j.work k).items.map Item.tag = (j.state.conns k).outstanding.map Item.tag

theorem ids_of_tags {items outstanding : List Item}
    (h : items.map Item.tag = outstanding.map Item.tag) :
    items.map Item.id = outstanding.map Item.id := by
  have hfst := congrArg (List.map Prod.fst) h
  rwa [List.map_map, List.map_map] at hfst

theorem attached_start (counter : ℕ) : (start counter).Attached where
  unaccepted _ _ := rfl
  settled _ := ⟨nofun, fun _ => rfl⟩
  absent _ _ := rfl
  batch _ h := absurd rfl h

theorem Attached.work (h : j.Attached) {k : ℕ} {redis : Redis} {nextId : ℕ → Option Bytes}
    {work : Work} (hidle : j.work k ≠ .idle ∨ work = .idle)
    (hitems : work ≠ .idle → work.items.map Item.tag = (j.work k).items.map Item.tag) :
    Attached { j with redis := redis, nextId := nextId, work := update j.work k work } where
  unaccepted := h.unaccepted
  settled := h.settled
  absent := by
    intro n hn
    by_cases hnk : n = k
    · subst hnk
      cases hidle with
      | inl hidle => exact absurd (h.absent n hn) hidle
      | inr hidle => exact (update_self _ _ _).trans hidle
    · exact (update_of_ne hnk _ _).trans (h.absent n hn)
  batch := by
    intro n hn hbroken
    by_cases hnk : n = k
    · subst hnk
      have hwork : update j.work n work n = work := update_self _ _ _
      change update j.work n work n ≠ .idle at hn
      change (update j.work n work n).items.map Item.tag = _
      rw [hwork] at hn ⊢
      rw [hitems hn]
      exact h.batch n (hidle.resolve_right hn) hbroken
    · change update j.work k work n ≠ .idle at hn
      change (update j.work k work n).items.map Item.tag = _
      rw [update_of_ne hnk] at hn ⊢
      exact h.batch n hn hbroken

inductive Passes (j : ShmService) (k : ℕ) (c' : Conn) : ConnAction → (ℕ → Work) → Prop
  | written {items : List Item} (hp : (j.state.conns k).point = .write items)
      (hitems : c'.outstanding = (j.state.conns k).outstanding ++ items) :
      Passes j k c' .writeOk (update j.work k (.decoding [] items))
  | answered {code : TaskCode} {items : List Item} (hk : j.work k = .replying code items) :
      Passes j k c' (.readReply code items) (update j.work k .idle)
  | failed {code : TaskCode} {items : List Item} (hbroken : c'.broken = true) :
      Passes j k c' (.readErr code items) j.work
  | other {act : ConnAction} (hwrite : act ≠ .writeOk)
      (hreply : ∀ code items, act ≠ .readReply code items)
      (hread : ∀ code items, act ≠ .readErr code items) : Passes j k c' act j.work

theorem passes_of_exchange {k : ℕ} {act : ConnAction} {m : TaskManager} {c : Conn}
    {work : ℕ → Work} {touched : List UInt32} (hwork : j.exchange (.conn k act) = some work)
    (hm : Conn.Move svc j.state.manager (j.state.conns k) act touched m c) :
    Passes j k c act work := by
  cases act with
  | writeOk =>
    cases hm with
    | writeOk hp hbroken =>
      simp only [exchange, hp] at hwork
      cases hwork
      exact .written hp rfl
  | readReply code items =>
    simp only [exchange] at hwork
    split at hwork
    · rename_i hk
      cases hwork
      exact .answered hk
    · cases hwork
  | readErr code items =>
    simp only [exchange] at hwork
    split at hwork
    · cases hwork
      cases hm with
      | readCut => exact .failed rfl
      | readErr => exact .failed rfl
    · cases hwork
  | run => cases hwork; exact .other nofun nofun nofun
  | recv => cases hwork; exact .other nofun nofun nofun
  | timeUp => cases hwork; exact .other nofun nofun nofun
  | writeErr => cases hwork; exact .other nofun nofun nofun
  | readEvents items => cases hwork; exact .other nofun nofun nofun

theorem Passes.work_ne {k n : ℕ} {c : Conn} {act : ConnAction} {work : ℕ → Work}
    (h : Passes j k c act work) (hn : n ≠ k) : work n = j.work n := by
  cases h with
  | written => exact update_of_ne hn _ _
  | answered => exact update_of_ne hn _ _
  | failed => rfl
  | other => rfl

theorem step_absent (m : TaskManager) (act : ConnAction) :
    Conn.absent.step svc m act = none := by
  cases act <;> rfl

theorem Attached.conn (h : j.Attached) {k : ℕ} {act : ConnAction} {m : TaskManager} {c : Conn}
    {work : ℕ → Work} (hwork : j.exchange (.conn k act) = some work)
    (hstep : (j.state.conns k).step svc j.state.manager act = some (m, c))
    (hunaccepted : (j.state.setConn k m c).Unaccepted) :
    Attached { j with state := j.state.setConn k m c, work := work } := by
  obtain ⟨touched, hm⟩ := Conn.move_of_step hstep
  have hself : ((j.state.setConn k m c).conns k) = c := update_self _ _ _
  have hne : ∀ n, n ≠ k → (j.state.setConn k m c).conns n = j.state.conns n :=
    fun n hn => update_of_ne hn _ _
  have hpasses := passes_of_exchange hwork hm
  have hreply : ∀ code items, act = .readReply code items →
      items.map Item.id = (j.state.conns k).outstanding.map Item.id := by
    rintro code items rfl
    cases hm with
    | readReply hp hcode hnames hnodup =>
      cases hpasses with
      | answered hk =>
        have hbroken := ((h.settled k).jobless (by rw [hp]; rfl)).2
        have htags := h.batch k (by rw [hk]; exact Work.noConfusion) hbroken
        rw [hk] at htags
        exact ids_of_tags htags
      | other _ hreply _ => exact absurd rfl (hreply _ _)
  have hsettled : ∀ n, ((j.state.setConn k m c).conns n).Settled := by
    intro n
    by_cases hn : n = k
    · subst hn
      rw [hself]
      exact (h.settled n).move hm hreply
    · rw [hne n hn]
      exact h.settled n
  have hk : k < j.state.connected := by
    by_contra hk
    rw [h.unaccepted k (not_lt.mp hk), step_absent] at hstep
    cases hstep
  refine ⟨hunaccepted, hsettled, ?_, ?_⟩
  · intro n hn
    have hne' : n ≠ k := fun heq => absurd hk (not_lt.mpr (heq ▸ hn))
    exact (hpasses.work_ne hne').trans (h.absent n hn)
  · intro n hn hbroken
    change ((j.state.setConn k m c).conns n).broken = false at hbroken
    change (work n).items.map Item.tag = ((j.state.setConn k m c).conns n).outstanding.map Item.tag
    by_cases hnk : n = k
    · subst hnk
      rw [hself] at hbroken ⊢
      cases hpasses with
      | written hp hitems =>
        rw [update_self, hitems, (h.settled n).answered (by rw [hp]; exact nofun)]
        rfl
      | answered => exact absurd (update_self _ _ _) hn
      | failed hbroken' => exact absurd (hbroken'.symm.trans hbroken) (by decide)
      | other hwrite hreply hread =>
        obtain ⟨houtstanding, hbroken'⟩ := (h.settled n).outstanding hm hwrite hreply hread
        rw [houtstanding]
        exact h.batch n hn (hbroken'.symm.trans hbroken)
    · rw [hne n hnk] at hbroken ⊢
      rw [hpasses.work_ne hnk]
      exact h.batch n (by rwa [← hpasses.work_ne hnk]) hbroken

theorem Attached.service (h : j.Attached) {a : Action} {s : State} {work : ℕ → Work}
    (hwork : j.exchange a = some work) (hstep : j.state.step svc a = some s) :
    Attached { j with state := s, work := work } := by
  have hunaccepted := h.unaccepted.step hstep
  cases a with
  | submit isSse key body =>
    obtain rfl := Option.some.inj hwork
    obtain rfl := Option.some.inj hstep
    exact ⟨hunaccepted, h.settled, h.absent, h.batch⟩
  | request n act =>
    obtain rfl := Option.some.inj hwork
    obtain ⟨p, -, rfl⟩ := Option.map_eq_some_iff.mp hstep
    exact ⟨hunaccepted, h.settled, h.absent, h.batch⟩
  | connect r =>
    obtain rfl := Option.some.inj hwork
    simp only [State.step] at hstep
    split at hstep
    · obtain rfl := Option.some.inj hstep
      have hidle := h.absent _ le_rfl
      refine ⟨hunaccepted, ?_, fun n hn => h.absent n (Nat.le_of_succ_le hn), ?_⟩
      · intro n
        by_cases hn : n = j.state.connected
        · rw [show (j.state.accept r).conns n = Conn.accept r by rw [hn]; exact update_self _ _ _]
          refine ⟨fun hread => ?_, fun _ => rfl⟩
          cases hread
        · rw [State.accept_conns_ne _ _ hn]
          exact h.settled n
      · intro n hn hbroken
        have hne : n ≠ j.state.connected := fun heq => hn (heq ▸ hidle)
        change ((j.state.accept r).conns n).broken = false at hbroken
        change _ = ((j.state.accept r).conns n).outstanding.map Item.tag
        rw [State.accept_conns_ne _ _ hne] at hbroken ⊢
        exact h.batch n hn hbroken
    · cases hstep
  | conn k act =>
    obtain ⟨⟨m, c⟩, hmove, rfl⟩ := Option.map_eq_some_iff.mp hstep
    exact h.conn hwork hmove hunaccepted

theorem Attached.step (h : j.Attached) (hstep : j.step svc a = some j') : j'.Attached := by
  cases move_of_step hstep with
  | service hwork hs => exact h.service hwork hs
  | decode hk hredis =>
    refine h.work (.inl (by rw [hk]; exact Work.noConfusion)) fun _ => ?_
    simp [hk, Work.items]
  | forward hk =>
    refine h.work (.inl (by rw [hk]; exact Work.noConfusion)) fun _ => ?_
    simp [hk, Work.items]
  | prepareNextId => exact ⟨h.unaccepted, h.settled, h.absent, h.batch⟩
  | encodeEgress data hk hegress =>
    refine h.work (.inl (by rw [hk]; exact Work.noConfusion)) fun _ => ?_
    simp [hk, Work.items, Item.tag]
  | encodeIpc data hk hegress hid =>
    refine h.work (.inl (by rw [hk]; exact Work.noConfusion)) fun _ => ?_
    simp [hk, Work.items, Item.tag]
  | finish hk =>
    refine h.work (.inl (by rw [hk]; exact Work.noConfusion)) fun _ => ?_
    simp [hk, Work.items]
  | raise hcode hidle hredis =>
    refine h.work (.inl hidle) fun _ => ?_
    simp [Work.items, Function.comp_def, Item.tag]
  | lose => exact h.work (.inr rfl) fun hidle => absurd rfl hidle

end ShmService

end Mosec
