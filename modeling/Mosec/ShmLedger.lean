import Mathlib.Data.Set.Basic
import Mosec.ShmAccounting

namespace Mosec.ShmService

open Function (update update_self update_of_ne)
open State (FreshRun coherent_of_run unaccepted_of_run routed_of_run filed_of_run notified_of_run)

variable {svc : Service} {j j' : ShmService} {a : ShmAction} {key : Bytes}

inductive Pending (svc : Service) (j : ShmService) (key : Bytes) : Prop
  | submission {h : ℕ} (href : (j.state.life h).Refers svc key)
  | worker {k : ℕ} (hholds : (j.work k).Holds key)

/-- How a step leaves a reference behind: a submission does, or a worker that raises or is lost,
or whose `SET` took effect although it raised. -/
inductive Drops (svc : Service) (j j' : ShmService) : ShmAction → Bytes → Prop
  | discarded {a : Action} {h : ℕ} {key : Bytes}
      (hdiscards : Life.Discards svc (j.state.life h) (j'.state.life h) key) :
      Drops svc j j' (.service a) key
  | raised {k : ℕ} {takesEffect : Bool} {data text : Bytes} {code : TaskCode} {key : Bytes}
      (hholds : (j.work k).Holds key) : Drops svc j j' (.raise k takesEffect data code text) key
  | unreturned {k : ℕ} {data text : Bytes} {code : TaskCode} {key : Bytes}
      (hstoring : j.storing k = some key) : Drops svc j j' (.raise k true data code text) key
  | lost {k : ℕ} {key : Bytes} (hholds : (j.work k).Holds key) : Drops svc j j' (.lose k) key

/-- The objects written so far, those deleted since by the `deserialize_ipc` of a worker, and
those whose last reference was dropped while they were stored. -/
structure Ledger where
  written : Set Bytes
  fetched : Set Bytes
  lost : Set Bytes

def Ledger.record (svc : Service) (ledger : Ledger) (j : ShmService) (a : ShmAction)
    (j' : ShmService) : Ledger where
  written := ledger.written ∪ {key | j.stores a = some key}
  fetched := (ledger.fetched \ {key | j.stores a = some key}) ∪ {key | j.fetches a = some key}
  lost := (ledger.lost \ {key | j.stores a = some key ∨ j.fetches a = some key}) ∪
    {key | Drops svc j j' a key ∧ ¬ Pending svc j' key ∧ j'.redis.object key ≠ none}

inductive Recorded (svc : Service) : ShmService → Ledger → Prop
  | start (counter : ℕ) : Recorded svc (start counter) ⟨∅, ∅, ∅⟩
  | step {j j' : ShmService} {a : ShmAction} {ledger : Ledger} (h : Recorded svc j ledger)
      (hfresh : ∀ b, a = .service b → j.state.FreshId b) (hstep : j.step svc a = some j') :
      Recorded svc j' (ledger.record svc j a j')

theorem state_of_step (h : j.step svc a = some j') :
    (∃ b, a = .service b ∧ j.state.step svc b = some j'.state) ∨ j'.state = j.state := by
  cases move_of_step h with
  | service hwork hstep => exact .inl ⟨_, rfl, hstep⟩
  | decode => exact .inr rfl
  | forward => exact .inr rfl
  | prepareNextId => exact .inr rfl
  | encodeEgress => exact .inr rfl
  | encodeIpc => exact .inr rfl
  | finish => exact .inr rfl
  | raise => exact .inr rfl
  | lose => exact .inr rfl

theorem freshRun_step (h : FreshRun svc (fun _ _ => True) j.state)
    (hfresh : ∀ b, a = .service b → j.state.FreshId b) (hstep : j.step svc a = some j') :
    FreshRun svc (fun _ _ => True) j'.state := by
  rcases state_of_step hstep with ⟨b, rfl, hb⟩ | hstate
  · exact h.step ⟨hfresh b rfl, trivial⟩ hb
  · rw [hstate]
    exact h

theorem Recorded.freshRun {ledger : Ledger} (h : Recorded svc j ledger) :
    FreshRun svc (fun _ _ => True) j.state := by
  induction h with
  | start counter => exact .init
  | step _ hfresh hstep ih => exact freshRun_step ih hfresh hstep

theorem Recorded.attached {ledger : Ledger} (h : Recorded svc j ledger) : j.Attached := by
  induction h with
  | start counter => exact attached_start counter
  | step _ _ hstep ih => exact ih.step hstep

theorem jobOf_ne_working {jobs : List Job} {i : UInt32} {r : ℕ} {item : Item} :
    Point.jobOf jobs i ≠ some (.working r item) := by
  intro h
  obtain ⟨job, -, hplace⟩ := Option.map_eq_some_iff.mp h
  cases job <;> cases hplace

theorem place_ne_working (p : Point) (r r' : ℕ) (i : UInt32) (item : Item) :
    p.place r i ≠ some (.working r' item) := by
  have hjobs : ∀ jobs, Point.jobOf jobs i ≠ some (.working r' item) :=
    fun _ => jobOf_ne_working
  cases p <;> simp only [Point.place] <;> try split
  all_goals simp [hjobs]

theorem outstanding_of_view {c : Conn} {i : UInt32} {r : ℕ} {item : Item} {outbox : Outbox}
    (h : c.view i = some (.working r item, outbox)) : item ∈ c.outstanding ∧ item.id = i := by
  obtain ⟨place, hplace, heq⟩ := Option.map_eq_some_iff.mp h
  obtain rfl := (Prod.mk.inj heq).1
  rw [Conn.place, Option.or_eq_some_iff] at hplace
  rcases hplace with hplace | ⟨-, hplace⟩
  · exact absurd hplace (place_ne_working _ _ _ _ _)
  · obtain ⟨item', hitem, heq⟩ := Option.map_eq_some_iff.mp hplace
    cases heq
    exact Point.itemOf_mem hitem

theorem exists_outstanding {s : State} {h r : ℕ} {item : Item} {outbox : Outbox}
    (hp : (s.life h).carried = some (.working r item, outbox)) :
    ∃ k, item ∈ (s.conns k).outstanding := by
  rcases State.shown_of_carried hp with ⟨r', heq⟩ | ⟨k, hview⟩
  · cases heq
  · exact ⟨k, (outstanding_of_view hview).1⟩

theorem exists_written {s s' : State} {a : Action} (hs : FreshRun svc (fun _ _ => True) s)
    (hstep : s.step svc a = some s') {h : ℕ}
    (hhands : Life.Hands (s.life h) (s'.life h) key) : ∃ k items item, a = .conn k .writeOk ∧
      (s.conns k).point = .write items ∧ item ∈ items ∧ item.isIngress = false ∧
        item.data = key := by
  obtain ⟨hp, hitem, hp'⟩ := hhands
  rename_i r item outbox outbox'
  obtain ⟨k, hk⟩ := exists_outstanding hp'
  have hunwritten : item ∉ (s.conns k).outstanding := by
    intro hmem
    have hcarried := State.carried_of_outstanding (coherent_of_run hs) hmem
    obtain ⟨route, -, -, hnext⟩ := (routed_of_run hs h).located hp
    have hid : item.id = (s.requests h).id := by rw [hnext]; rfl
    rw [State.life_carried (State.owner_of_carried hp), ← hid, hcarried] at hp
    cases hp
  cases a with
  | submit isSse key body =>
    obtain rfl := Option.some.inj hstep
    exact absurd hk hunwritten
  | request n act =>
    obtain ⟨p, -, rfl⟩ := Option.map_eq_some_iff.mp hstep
    exact absurd hk hunwritten
  | connect r =>
    simp only [State.step] at hstep
    split at hstep
    · obtain rfl := Option.some.inj hstep
      by_cases hn : k = s.connected
      · rw [show (s.accept r).conns k = Conn.accept r by rw [hn]; exact update_self _ _ _] at hk
        cases hk
      · rw [State.accept_conns_ne _ _ hn] at hk
        exact absurd hk hunwritten
    · cases hstep
  | conn n act =>
    obtain ⟨⟨m, c⟩, hmove, rfl⟩ := Option.map_eq_some_iff.mp hstep
    obtain ⟨touched, hm⟩ := Conn.move_of_step hmove
    by_cases hn : k = n
    · subst hn
      rw [State.setConn_conns_self] at hk
      rcases hm.outstanding hk with hk | ⟨rfl, items, hpoint, hk⟩
      · exact absurd hk hunwritten
      · exact ⟨k, items, item, rfl, hpoint, hk, hitem, rfl⟩
    · rw [State.setConn_conns_ne _ _ _ hn] at hk
      exact absurd hk hunwritten

theorem refers_answered {k : ℕ} {items : List Item} {s' : State}
    (hs : FreshRun svc (fun _ _ => True) j.state) (hs' : FreshRun svc (fun _ _ => True) s')
    (hj : j.Attached) (hk : j.work k = .replying .Normal items)
    (hstep : j.state.step svc (.conn k (.readReply .Normal items)) = some s') {item : Item}
    (hitem : item ∈ items) (hegress : item.isEgress = false) :
    ∃ h, (s'.life h).Refers svc item.data := by
  obtain ⟨⟨m, c⟩, hmove, rfl⟩ := Option.map_eq_some_iff.mp hstep
  obtain ⟨touched, hm⟩ := Conn.move_of_step hmove
  have hcoherent := coherent_of_run hs
  cases hm with
  | readReply hp hcode hnames hnodup =>
    have hbroken := ((hj.settled k).jobless (by rw [hp]; rfl)).2
    have htags := hj.batch k (by rw [hk]; exact Work.noConfusion) hbroken
    rw [hk] at htags
    obtain ⟨sent, hsent, htag⟩ : ∃ sent ∈ (j.state.conns k).outstanding, sent.tag = item.tag := by
      rw [← List.mem_map, ← htags]
      exact List.mem_map_of_mem hitem
    obtain ⟨hid, hstate⟩ := Prod.mk.inj htag
    obtain ⟨h, route, n, hown, hroute, hn, hr, -, hlast⟩ := State.dispatched hs hsent
    rw [hid] at hown
    have hreq := (hcoherent.owned hown).1
    rw [← hreq] at hown
    have hfind : Point.itemOf items (j.state.requests h).id = some item := by
      rw [hreq]
      exact Point.itemOf_of_mem hnodup hitem
    have hview : ∀ c : Conn, c.point = .update .Normal items →
        c.view (j.state.requests h).id = some (.answered .Normal item.data, .empty) := by
      intro c hc
      simp only [Conn.view, Conn.place, hc, Point.place, hfind]
      rfl
    have hcarried := State.carried_of_view (h := h) (coherent_of_run hs') hown
      (hview _ (by rw [State.setConn_conns_self]))
    have hreplies := congrArg History.replies
      (State.record_of_itemOf (f := Conn.answer .Normal) hcoherent hown hnodup hfind)
    have hlength : ((j.state.manager.record items (Conn.answer .Normal)).history h).replies.length =
        n + 1 := by
      rw [hreplies, ← hn]
      exact List.length_append
    have hnext : n + 1 ≠ route.length := by
      rw [hstate] at hlast
      exact mt hlast.mpr (of_decide_eq_false hegress)
    have hlt : n < route.length := (List.getElem?_eq_some_iff.mp hr).1
    refine ⟨h, .answered hcarried hroute ?_⟩
    change ((j.state.manager.record items (Conn.answer .Normal)).history h).replies.length < _
    omega

theorem Holds.items_ne_nil {work : Work} (h : work.Holds key) : work.items ≠ [] := by
  cases h with
  | toDecode hitem => exact List.append_ne_nil_of_right_ne_nil _ (List.ne_nil_of_mem hitem)
  | encoded hitem => exact List.append_ne_nil_of_left_ne_nil (List.ne_nil_of_mem hitem) _
  | replied hitem => exact List.ne_nil_of_mem hitem

theorem not_holds_of_write (hj : j.Attached) {k : ℕ} {items : List Item}
    (hp : (j.state.conns k).point = .write items) (hbroken : (j.state.conns k).broken = false) :
    ¬ (j.work k).Holds key := by
  intro h
  have hidle : j.work k ≠ .idle := by
    intro hidle
    rw [hidle] at h
    cases h
  have htags := hj.batch k hidle hbroken
  rw [(hj.settled k).answered (by rw [hp]; exact nofun), List.map_nil, List.map_eq_nil_iff] at htags
  exact Holds.items_ne_nil h htags

theorem pending_submission {a : Action} {s : State} {work : ℕ → Work} {h : ℕ}
    (hs : FreshRun svc (fun _ _ => True) j.state) (hfresh : j.state.FreshId a)
    (hwork : j.exchange a = some work) (hstep : j.state.step svc a = some s)
    (href : (j.state.life h).Refers svc key) :
    Pending svc { j with state := s, work := work } key ∨
      Drops svc j { j with state := s, work := work } (.service a) key := by
  rcases State.refines (coherent_of_run hs) (unaccepted_of_run hs) hfresh hstep h with
    heq | ⟨lab, -, hlife⟩
  · rw [← heq] at href
    exact .inl (.submission href)
  · rcases href.step (notified_of_run hs h) (filed_of_run hs h) (routed_of_run hs h) hlife with
      href | hdiscards | hhands
    · exact .inl (.submission href)
    · exact .inr (.discarded hdiscards)
    · obtain ⟨k, items, item, rfl, hp, hitem, hingress, rfl⟩ := exists_written hs hstep hhands
      simp only [exchange, hp, Option.some.injEq] at hwork
      have hk : work k = .decoding [] items := by rw [← hwork, update_self]
      refine .inl (.worker (k := k) ?_)
      change (work k).Holds item.data
      rw [hk]
      exact .toDecode hitem hingress

theorem pending_worker {a : Action} {s : State} {work : ℕ → Work} {k : ℕ}
    (hs : FreshRun svc (fun _ _ => True) j.state) (hs' : FreshRun svc (fun _ _ => True) s)
    (hj : j.Attached) (hwork : j.exchange a = some work) (hstep : j.state.step svc a = some s)
    (hholds : (j.work k).Holds key) :
    Pending svc { j with state := s, work := work } key := by
  have hsame : work k = j.work k → Pending svc { j with state := s, work := work } key := by
    intro heq
    rw [← heq] at hholds
    exact .worker (k := k) hholds
  cases a with
  | submit isSse key body => exact hsame (by rw [← Option.some.inj hwork])
  | request n act => exact hsame (by rw [← Option.some.inj hwork])
  | connect r => exact hsame (by rw [← Option.some.inj hwork])
  | conn n act =>
    have hstep' := hstep
    obtain ⟨⟨m, c⟩, hmove, rfl⟩ := Option.map_eq_some_iff.mp hstep
    obtain ⟨touched, hm⟩ := Conn.move_of_step hmove
    have hpasses := passes_of_exchange hwork hm
    by_cases hn : k = n
    · subst hn
      cases hpasses with
      | written hp =>
        cases hm with
        | writeOk _ hbroken => exact absurd hholds (not_holds_of_write hj hp hbroken)
      | answered hk =>
        rw [hk] at hholds
        cases hholds with
        | replied hitem hegress =>
          obtain ⟨h, href⟩ := refers_answered hs hs' hj hk hstep' hitem hegress
          exact .submission href
      | failed => exact hsame rfl
      | other => exact hsame rfl
    · exact hsame (hpasses.work_ne hn)

theorem pending_update {k n : ℕ} {redis : Redis} {nextId : ℕ → Option Bytes} {work : Work}
    (hholds : (j.work n).Holds key) (hself : n = k → work.Holds key) :
    Pending svc { j with redis := redis, nextId := nextId, work := update j.work k work } key := by
  refine .worker (k := n) ?_
  change (update j.work k work n).Holds key
  by_cases hn : n = k
  · rw [hn, update_self]
    exact hself hn
  · rwa [update_of_ne hn]

theorem Holds.append {encoded items : List Item} {item : Item}
    (h : (Work.encoding encoded (item :: items)).Holds key) (result : Item) :
    (Work.encoding (encoded ++ [result]) items).Holds key := by
  cases h with
  | encoded hitem hegress => exact .encoded (List.mem_append_left _ hitem) hegress

theorem pending_held (hs : FreshRun svc (fun _ _ => True) j.state)
    (hs' : FreshRun svc (fun _ _ => True) j'.state) (hj : j.Attached)
    (hstep : j.step svc a = some j') {n : ℕ} (hholds : (j.work n).Holds key) :
    Pending svc j' key ∨ j.fetches a = some key ∨ Drops svc j j' a key := by
  cases move_of_step hstep with
  | service hwork hmove => exact .inl (pending_worker hs hs' hj hwork hmove hholds)
  | decode hk hredis =>
    rename_i k decoded items item redis
    by_cases hn : n = k
    · rw [hn, hk] at hholds
      cases hholds with
      | toDecode hitem hingress =>
        rename_i item'
        cases List.mem_cons.mp hitem with
        | inl heq =>
          subst heq
          refine .inr (.inl ?_)
          simp only [fetches, fetching, hk, hingress, Bool.false_eq_true, if_false]
        | inr hitem =>
          refine .inl (.worker (k := k) ?_)
          change (update j.work k _ k).Holds item'.data
          rw [update_self]
          exact .toDecode hitem hingress
    · exact .inl (pending_update hholds fun heq => absurd heq hn)
  | forward hk =>
    refine .inl (pending_update hholds fun hn => ?_)
    rw [hn, hk] at hholds
    cases hholds with
    | toDecode hitem => cases hitem
  | prepareNextId => exact .inl (.worker hholds)
  | encodeEgress data hk hegress =>
    refine .inl (pending_update hholds fun hn => ?_)
    rw [hn, hk] at hholds
    exact Holds.append hholds _
  | encodeIpc data hk hegress hid =>
    refine .inl (pending_update hholds fun hn => ?_)
    rw [hn, hk] at hholds
    exact Holds.append hholds _
  | finish hk =>
    refine .inl (pending_update hholds fun hn => ?_)
    rw [hn, hk] at hholds
    cases hholds with
    | encoded hitem hegress => exact .replied hitem hegress
  | raise hcode hidle hredis =>
    rename_i k takesEffect data text code redis
    by_cases hn : n = k
    · exact .inr (.inr (.raised (hn ▸ hholds)))
    · exact .inl (pending_update hholds fun heq => absurd heq hn)
  | lose =>
    rename_i k
    by_cases hn : n = k
    · exact .inr (.inr (.lost (hn ▸ hholds)))
    · exact .inl (pending_update hholds fun heq => absurd heq hn)

theorem pending_step (hs : FreshRun svc (fun _ _ => True) j.state)
    (hs' : FreshRun svc (fun _ _ => True) j'.state) (hj : j.Attached)
    (hfresh : ∀ b, a = .service b → j.state.FreshId b) (hstep : j.step svc a = some j')
    (h : Pending svc j key) :
    Pending svc j' key ∨ j.fetches a = some key ∨ Drops svc j j' a key := by
  cases h with
  | submission href =>
    cases move_of_step hstep with
    | service hwork hmove =>
      exact (pending_submission hs (hfresh _ rfl) hwork hmove href).imp_right Or.inr
    | decode => exact .inl (.submission href)
    | forward => exact .inl (.submission href)
    | prepareNextId => exact .inl (.submission href)
    | encodeEgress => exact .inl (.submission href)
    | encodeIpc => exact .inl (.submission href)
    | finish => exact .inl (.submission href)
    | raise => exact .inl (.submission href)
    | lose => exact .inl (.submission href)
  | worker hholds => exact pending_held hs hs' hj hstep hholds

theorem pending_stored (hstep : j.step svc a = some j') (hstore : j.stores a = some key) :
    Pending svc j' key ∨ Drops svc j j' a key := by
  obtain ⟨k, data, hstoring, -, hhow⟩ := (move_of_step hstep).stored hstore
  rcases hhow with ⟨rfl, hholds⟩ | ⟨text, code, rfl⟩
  · exact .inl (.worker hholds)
  · exact .inr (.unreturned hstoring)

theorem stored_accounted {ledger : Ledger} (h : Recorded svc j ledger)
    (hstored : j.redis.object key ≠ none) : Pending svc j key ∨ key ∈ ledger.lost := by
  induction h with
  | start counter => exact absurd rfl hstored
  | @step j j' a ledger h hfresh hstep ih =>
    have hrun' := freshRun_step h.freshRun hfresh hstep
    have hdropped : Drops svc j j' a key →
        Pending svc j' key ∨ key ∈ (ledger.record svc j a j').lost := by
      intro hdrops
      by_cases hpending : Pending svc j' key
      · exact .inl hpending
      · exact .inr (.inr ⟨hdrops, hpending, hstored⟩)
    by_cases hstore : j.stores a = some key
    · exact (pending_stored hstep hstore).elim Or.inl hdropped
    · have hobject := (move_of_step hstep).object hstore
      have hfetch : j.fetches a ≠ some key := fun hfetch =>
        hstored (hobject.trans (if_pos hfetch))
      rw [if_neg hfetch] at hobject
      cases ih (hobject ▸ hstored) with
      | inl hpending =>
        rcases pending_step h.freshRun hrun' h.attached hfresh hstep hpending with
          hpending | hfetched | hdrops
        · exact .inl hpending
        · exact absurd hfetched hfetch
        · exact hdropped hdrops
      | inr hlost => exact .inr (.inl ⟨hlost, not_or.mpr ⟨hstore, hfetch⟩⟩)

theorem object_of_lost {ledger : Ledger} (h : Recorded svc j ledger) (hlost : key ∈ ledger.lost) :
    j.redis.object key ≠ none := by
  induction h with
  | start counter => cases hlost
  | @step j j' a ledger h hfresh hstep ih =>
    rcases hlost with ⟨hlost, hkept⟩ | ⟨-, -, hstored⟩
    · obtain ⟨hstore, hfetch⟩ := not_or.mp hkept
      rw [(move_of_step hstep).object hstore, if_neg hfetch]
      exact ih hlost
    · exact hstored

theorem stored_object (hstep : j.step svc a = some j') (hstore : j.stores a = some key) :
    j'.redis.object key ≠ none := by
  obtain ⟨k, data, -, hredis, -⟩ := (move_of_step hstep).stored hstore
  have hobject : (j.redis.setIncr key data).object key = some data := update_self _ _ _
  rw [hredis, hobject]
  exact Option.some_ne_none data

theorem written_accounted {ledger : Ledger} (h : Recorded svc j ledger)
    (hwritten : key ∈ ledger.written) : key ∈ ledger.fetched ∨ j.redis.object key ≠ none := by
  induction h with
  | start counter => cases hwritten
  | @step j j' a ledger h hfresh hstep ih =>
    by_cases hstore : j.stores a = some key
    · exact .inr (stored_object hstep hstore)
    · rw [(move_of_step hstep).object hstore]
      by_cases hfetch : j.fetches a = some key
      · exact .inl (.inr hfetch)
      · rw [if_neg hfetch]
        exact (ih (hwritten.resolve_right hstore)).imp_left fun hfetched =>
          .inl ⟨hfetched, hstore⟩

theorem not_pending_of_quiescent (hj : j.Attached) (hq : j.Quiescent svc) :
    ¬ Pending svc j key := by
  have hconns : ∀ k, (j.state.conns k).ids = [] := by
    intro k
    by_cases hk : k < j.state.connected
    · exact (hq.2.2 k hk).1
    · rw [hj.unaccepted k (not_lt.mp hk)]
      rfl
  have hplace : ∀ h p outbox, (j.state.life h).carried = some (p, outbox) →
      p.inFlight = false := by
    intro h p outbox hp
    rcases State.shown_of_carried hp with ⟨r, heq⟩ | ⟨k, hview⟩
    · cases heq
      rfl
    · have hmem := (Conn.view_isSome _ _).mp (Option.isSome_of_eq_some hview)
      rw [hconns k] at hmem
      cases hmem
  intro h
  cases h with
  | submission href =>
    rename_i n
    cases href with
    | filed _ hentry _ =>
      simp only [State.life, hq.1, ite_self, reduceCtorEq] at hentry
    | framed hp _ => cases hplace n _ _ hp
    | answered hp _ _ => cases hplace n _ _ hp
  | worker hholds =>
    rename_i k
    have hidle : j.work k = .idle := by
      by_cases hk : k < j.state.connected
      · exact (hq.2.2 k hk).2
      · exact hj.absent k (not_lt.mp hk)
    rw [hidle] at hholds
    cases hholds

theorem run_of_reachable {counter : ℕ}
    (h : Transition.Reachable (step svc) (fun _ _ => True) (start counter) j) :
    State.Run svc (fun _ _ => True) j.state := by
  induction h with
  | init => exact .init
  | step _ _ hstep ih =>
    rcases state_of_step hstep with ⟨b, rfl, hb⟩ | hstate
    · exact ih.step trivial hb
    · rw [hstate]
      exact ih

theorem recorded_of_submitted {counter : ℕ}
    (h : Transition.Reachable (step svc) (fun _ _ => True) (start counter) j)
    (hlt : j.state.submitted < 2 ^ 32) : ∃ ledger, Recorded svc j ledger := by
  induction h with
  | init => exact ⟨_, .start counter⟩
  | @step j j' a hj _ hstep ih =>
    have hle : j.state.submitted ≤ j'.state.submitted := by
      rcases state_of_step hstep with ⟨b, rfl, hb⟩ | hstate
      · exact State.submitted_le_of_step hb
      · rw [hstate]
    have hrun := run_of_reachable hj
    obtain ⟨hfresh, hall⟩ := State.freshRun_of_submitted hrun (by omega)
    obtain ⟨ledger, hledger⟩ := ih (by omega)
    refine ⟨_, hledger.step (fun b _ => ?_) hstep⟩
    exact State.freshId_of_lt (coherent_of_run hfresh) (State.numbered_of_run hrun) (by omega)

theorem table_empty {s : State} (hs : s.Coherent)
    (h : ∀ n < s.submitted, s.manager.table (s.requests n).id = none) (i : UInt32) :
    s.manager.table i = none := by
  cases htask : s.manager.table i with
  | none => rfl
  | some task =>
    obtain ⟨hid, hgiven⟩ := hs.owned (hs.entry htask)
    have hlt : task.createAt < s.submitted := by
      by_contra hle
      rw [hs.absent (not_lt.mp hle)] at hgiven
      cases hgiven
    have hnone := h _ hlt
    rw [hid, htask] at hnone
    cases hnone

theorem quiescent_objects {ledger : Ledger} (h : Recorded svc j ledger)
    (hq : j.Quiescent svc) : (∀ key, j.redis.object key ≠ none ↔ key ∈ ledger.lost) ∧
      ∀ key ∈ ledger.written, key ∈ ledger.fetched ∨ key ∈ ledger.lost := by
  have hlost : ∀ key, j.redis.object key ≠ none → key ∈ ledger.lost := fun key hstored =>
    (stored_accounted h hstored).resolve_left (not_pending_of_quiescent h.attached hq)
  exact ⟨fun key => ⟨hlost key, object_of_lost h⟩,
    fun key hwritten => (written_accounted h hwritten).imp_right (hlost key)⟩

def duo : Service :=
  Config.initFromConfig ⟨1, [⟨"first", 1⟩, ⟨"second", 1⟩], [⟨"/", ["first", "second"]⟩]⟩
    ⟨by decide, by decide, by decide⟩

def firstStage : List ShmAction :=
  [.service (.connect 0), .service (.connect 1), .service (.submit false "/" [1])] ++
    List.replicate 4 (.service (.request 0 .run)) ++
    [.service (.conn 0 .recv), .service (.conn 0 .run), .service (.conn 0 .writeOk), .decode 0,
      .forward 0, .prepareNextId 0, .encode 0 [9], .finish 0,
      .service (.conn 0 (.readReply .Normal [⟨0, 1, decimal 1⟩]))] ++
    List.replicate 4 (.service (.conn 0 .run))

def secondStage : List ShmAction :=
  [.service (.conn 1 .recv), .service (.conn 1 .run), .service (.conn 1 .writeOk), .decode 1,
    .forward 1, .encode 1 [7], .finish 1,
    .service (.conn 1 (.readReply .Normal [⟨0, 2, [7]⟩]))] ++
    List.replicate 6 (.service (.conn 1 .run)) ++
    [.service (.request 0 .resume), .service (.request 0 .run), .service (.request 0 .run)]

def expiry : List ShmAction :=
  [.service (.request 0 .elapse)] ++ List.replicate 3 (.service (.request 0 .run)) ++
    [.service (.conn 1 .recv), .service (.conn 1 .run)]

def Emptied (svc : Service) (j : ShmService) : Prop :=
  (∀ h < j.state.submitted, j.state.manager.table (j.state.requests h).id = none) ∧
    (∀ r < svc.runtimes.length, j.state.manager.queues r = []) ∧
    ∀ k < j.state.connected, (j.state.conns k).ids = [] ∧ j.work k = .idle

instance (svc : Service) (j : ShmService) : Decidable (j.Emptied svc) :=
  inferInstanceAs (Decidable (_ ∧ _ ∧ _))

theorem recorded_of_run {as : List ShmAction} {n : ℕ} {object : Option Bytes}
    (hview : ((Transition.run (step svc) (start 0) as).map fun j =>
      (j.state.submitted, decide (j.Emptied svc), j.redis.object key)) = some (n, true, object))
    (hlt : n < 2 ^ 32) : ∃ j ledger, Transition.run (step svc) (start 0) as = some j ∧
      Recorded svc j ledger ∧ j.Quiescent svc ∧ j.redis.object key = object := by
  obtain ⟨j, hj, hfields⟩ := Option.map_eq_some_iff.mp hview
  obtain ⟨hsubmitted, hfields⟩ := Prod.mk.inj hfields
  obtain ⟨hemptied, hobject⟩ := Prod.mk.inj hfields
  obtain ⟨htable, hrest⟩ := of_decide_eq_true hemptied
  obtain ⟨ledger, hledger⟩ :=
    recorded_of_submitted (Transition.reachable_of_run hj) (hsubmitted ▸ hlt)
  have hcoherent := coherent_of_run hledger.freshRun
  exact ⟨j, ledger, hj, hledger, ⟨table_empty hcoherent htable, hrest⟩, hobject⟩

theorem quiescent_objects_fetched : ∃ j ledger,
    Transition.run (step duo) (start 0) (firstStage ++ secondStage) = some j ∧
      Recorded duo j ledger ∧ j.Quiescent duo ∧ decimal 1 ∉ ledger.lost := by
  have hview : ((Transition.run (step duo) (start 0) (firstStage ++ secondStage)).map fun j =>
      (j.state.submitted, decide (j.Emptied duo), j.redis.object (decimal 1))) =
      some (1, true, none) := by
    decide +kernel
  obtain ⟨j, ledger, hj, hledger, hquiescent, hobject⟩ := recorded_of_run hview (by decide)
  have hobjects := quiescent_objects hledger hquiescent
  exact ⟨j, ledger, hj, hledger, hquiescent, fun hlost => (hobjects.1 _).mpr hlost hobject⟩

theorem expired_object_stays : ∃ j,
    Transition.Reachable (step duo) (fun _ _ => True) (start 0) j ∧ j.Quiescent duo ∧
      j.redis.object (decimal 1) = some [9] := by
  have hview : ((Transition.run (step duo) (start 0) (firstStage ++ expiry)).map fun j =>
      (j.state.submitted, decide (j.Emptied duo), j.redis.object (decimal 1))) =
      some (1, true, some [9]) := by
    decide +kernel
  obtain ⟨j, -, hj, -, hquiescent, hobject⟩ := recorded_of_run hview (by decide)
  exact ⟨j, Transition.reachable_of_run hj, hquiescent, hobject⟩

end Mosec.ShmService
