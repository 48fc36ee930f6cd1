import Mosec.Streaming

namespace Mosec

variable {α β : Type}

def MainAt.holds : MainAt α β → ℕ
  | .warmingUp _ _ => 1
  | .emitting _ _ _ => 1
  | .sending true _ => 1
  | .releasing true _ => 1
  | _ => 0

/-- As `holds`, and one for a reply that goes out without a permit. -/
def MainAt.claims : MainAt α β → ℕ
  | .warmingUp _ _ => 1
  | .emitting _ _ _ => 1
  | .sending _ _ => 1
  | .releasing _ _ => 1
  | _ => 0

def MainAt.InSend : MainAt α β → Prop
  | .sending _ _ => True
  | _ => False

def MainAt.InReply : MainAt α β → Prop
  | .sending _ _ => True
  | .releasing _ _ => True
  | _ => False

def StreamerAt.holds : StreamerAt → ℕ
  | .taken _ => 1
  | .sending _ => 1
  | .sent => 1
  | _ => 0

def StreamerAt.InSend : StreamerAt → Prop
  | .sending _ => True
  | _ => False

theorem MainAt.holds_le_claims (main : MainAt α β) : main.holds ≤ main.claims := by
  cases main with
  | sending acquired left =>
    cases acquired with
    | true => exact Nat.le_refl _
    | false => exact Nat.zero_le _
  | releasing acquired goesOn =>
    cases acquired with
    | true => exact Nat.le_refl _
    | false => exact Nat.zero_le _
  | warmup | warmingUp | receiving | forwarding | emitting | replying | stopped => exact Nat.le_refl _

theorem MainAt.claims_of_inReply {main : MainAt α β} (h : main.InReply) : main.claims = 1 := by
  cases main with
  | sending | releasing => rfl
  | warmup | warmingUp | receiving | forwarding | emitting | replying | stopped => exact h.elim

theorem MainAt.inReply_of_inSend {main : MainAt α β} (h : main.InSend) : main.InReply := by
  cases main with
  | sending => trivial
  | warmup | warmingUp | receiving | forwarding | emitting | replying | releasing | stopped =>
    exact h.elim

theorem StreamerAt.holds_of_inSend {streamer : StreamerAt} (h : streamer.InSend) :
    streamer.holds = 1 := by
  cases streamer with
  | sending => rfl
  | waiting | taken | sent | dead => exact h.elim

namespace Threads

/-- The value of the semaphore, the permits the threads hold, and the events queued. -/
def permits (s : Threads α β) : ℕ := s.value + s.main.holds + s.queue.length + s.streamer.holds

def Quiet (s : Threads α β) : Prop := s.queue = [] ∧ s.streamer.holds = 0

structure Exclusive (s : Threads α β) : Prop where
  permits : s.permits ≤ 1
  inSend : ¬ (s.main.InSend ∧ s.streamer.InSend)
  inReply : s.main.InReply → s.Quiet

/-- The invariant: a reply counts as the holder of the permit, even if it has none. -/
def Claimed (s : Threads α β) : Prop :=
  s.value + s.main.claims + s.queue.length + s.streamer.holds ≤ 1

theorem Claimed.exclusive {s : Threads α β} (h : s.Claimed) : s.Exclusive := by
  unfold Claimed at h
  constructor
  · have hle := s.main.holds_le_claims
    unfold Threads.permits
    omega
  · rintro ⟨hmain, hstreamer⟩
    have hm := MainAt.claims_of_inReply (MainAt.inReply_of_inSend hmain)
    have hs := StreamerAt.holds_of_inSend hstreamer
    omega
  · intro hreply
    have hm := MainAt.claims_of_inReply hreply
    exact ⟨List.length_eq_zero_iff.mp (by omega), by omega⟩

theorem Claimed.initial (warmup : List StreamEvent) : (initial warmup : Threads α β).Claimed :=
  Nat.le_refl 1

theorem beginReply_claimed {s : Threads α β} (acquired : Bool) (frame : Option Bytes)
    (h : s.value + 1 + s.queue.length + s.streamer.holds ≤ 1) :
    (s.beginReply acquired frame).Claimed := by
  cases frame <;> exact h

theorem Claimed.step {maxBatchSize : ℕ} {s s' : Threads α β} {label : StreamLabel}
    (h : s.Claimed) (hs : Step maxBatchSize s label s')
    (hquiet : label = .acquireTimesOut → s.Quiet) : s'.Claimed := by
  unfold Claimed at h
  cases hs with
  | warmupAcquire event todo value hmain hvalue =>
    rw [hmain, hvalue] at h
    exact h
  | warmupPut event todo hmain =>
    rw [hmain] at h
    simp only [Claimed, MainAt.claims, List.length_append, List.length_singleton] at h ⊢
    omega
  | warmupEnds hmain =>
    rw [hmain] at h
    exact h
  | receive batch hmain =>
    rw [hmain] at h
    unfold Threads.receive Claimed
    split <;> exact h
  | shutdown hmain | receiveFails hmain =>
    rw [hmain] at h
    exact h
  | acquire batch event todo value hmain hvalue =>
    rw [hmain, hvalue] at h
    exact h
  | put batch event todo hmain =>
    rw [hmain] at h
    simp only [Claimed, Threads.put, MainAt.claims, List.length_append,
      List.length_singleton] at h ⊢
    omega
  | forwardEnds batch hmain =>
    rw [hmain] at h
    exact h
  | interrupt batch todo str hmain =>
    rw [hmain] at h
    exact h
  | interruptHolding batch event todo str hmain =>
    rw [hmain] at h
    simp only [Claimed, Threads.interrupt, MainAt.claims] at h ⊢
    omega
  | escape batch interrupted hmain hreply =>
    rw [hmain] at h
    exact h
  | acquireReply batch interrupted reply value hmain hreply hvalue =>
    rw [hmain, hvalue] at h
    exact beginReply_claimed true _ h
  | acquireTimesOut batch interrupted reply hmain hreply hvalue =>
    obtain ⟨hqueue, hstreamer⟩ := hquiet rfl
    apply beginReply_claimed false _
    rw [hvalue, hqueue, hstreamer]
    decide
  | write acquired chunk left hmain =>
    rw [hmain] at h
    exact h
  | sent acquired hmain =>
    rw [hmain] at h
    exact h
  | sendFails acquired left hmain =>
    rw [hmain] at h
    exact h
  | release acquired goesOn hmain =>
    rw [hmain] at h
    unfold Claimed
    cases goesOn <;> exact h
  | streamGet event queue hstreamer hqueue =>
    rw [hstreamer, hqueue] at h
    simp only [Claimed, StreamerAt.holds, List.length_cons] at h ⊢
    omega
  | streamBuild event frame hstreamer hframe =>
    rw [hstreamer] at h
    exact h
  | streamRaises event hstreamer hframe =>
    rw [hstreamer] at h
    simp only [Claimed, StreamerAt.holds] at h ⊢
    omega
  | streamWrite chunk left hstreamer =>
    rw [hstreamer] at h
    exact h
  | streamSent hstreamer =>
    rw [hstreamer] at h
    exact h
  | streamFails left hstreamer =>
    rw [hstreamer] at h
    simp only [Claimed, StreamerAt.holds] at h ⊢
    omega
  | streamRelease hstreamer =>
    rw [hstreamer] at h
    simp only [Claimed, StreamerAt.holds] at h ⊢
    omega
  | streamStops hstreamer =>
    rw [hstreamer] at h
    exact h

def TimesOutQuietly (s : Threads α β) (label : StreamLabel) : Prop :=
  label = .acquireTimesOut → s.Quiet

theorem Claimed.runs {maxBatchSize : ℕ} {s s' : Threads α β} (h : s.Claimed)
    (hruns : Runs maxBatchSize TimesOutQuietly s s') : s'.Claimed := by
  induction hruns with
  | refl => exact h
  | tail hruns hstep hallowed ih => exact ih.step hstep hallowed

def MainAt.Past : MainAt α β → Prop
  | .receiving => True
  | .sending _ _ => True
  | .releasing _ _ => True
  | .stopped => True
  | _ => False

structure Settled (s : Threads α β) : Prop where
  past : MainAt.Past s.main
  quiet : s.Quiet

theorem Step.log_length {maxBatchSize : ℕ} {s s' : Threads α β} {label : StreamLabel}
    (hs : Step maxBatchSize s label s') : s.log.length ≤ s'.log.length := by
  cases hs with
  | receive batch hmain => exact Nat.le_succ _
  | put batch event todo hmain => exact (List.length_modifyHead ..).ge
  | interrupt batch todo str hmain => exact (List.length_modifyHead ..).ge
  | interruptHolding batch event todo str hmain => exact (List.length_modifyHead ..).ge
  | acquireReply batch interrupted reply value hmain hreply hvalue =>
    cases batch.frame reply with
    | none => exact Nat.le_refl _
    | some frame => exact (List.length_modifyHead ..).ge
  | acquireTimesOut batch interrupted reply hmain hreply hvalue =>
    cases batch.frame reply with
    | none => exact Nat.le_refl _
    | some frame => exact (List.length_modifyHead ..).ge
  | _ => exact Nat.le_refl _

theorem Settled.step {maxBatchSize : ℕ} {s s' : Threads α β} {label : StreamLabel}
    (h : s.Settled) (hs : Step maxBatchSize s label s') (hlog : s'.log.length = s.log.length) :
    s'.Settled := by
  obtain ⟨hpast, hqueue, hstreamer⟩ := h
  cases hs with
  | receive batch hmain => exact absurd hlog (Nat.succ_ne_self _)
  | shutdown | receiveFails | sent | sendFails => exact ⟨trivial, hqueue, hstreamer⟩
  | write acquired chunk left hmain => exact ⟨trivial, hqueue, hstreamer⟩
  | release acquired goesOn hmain =>
    refine ⟨?_, hqueue, hstreamer⟩
    cases goesOn <;> trivial
  | streamGet event queue hwaiting hcons =>
    rw [hqueue] at hcons
    cases hcons
  | streamStops hwaiting => exact ⟨hpast, hqueue, rfl⟩
  | streamBuild event frame hat | streamRaises event hat | streamWrite chunk left hat
  | streamSent hat | streamFails left hat | streamRelease hat =>
    rw [hat] at hstreamer
    exact absurd hstreamer Nat.one_ne_zero
  | warmupAcquire event todo value hmain | warmupPut event todo hmain | warmupEnds hmain
  | acquire batch event todo value hmain | put batch event todo hmain | forwardEnds batch hmain
  | interrupt batch todo str hmain | interruptHolding batch event todo str hmain
  | escape batch interrupted hmain | acquireReply batch interrupted reply value hmain
  | acquireTimesOut batch interrupted reply hmain =>
    rw [hmain] at hpast
    exact hpast.elim

theorem Settled.runs {maxBatchSize : ℕ} {allowed : Threads α β → StreamLabel → Prop}
    {s s' : Threads α β} (h : s.Settled) (hruns : Runs maxBatchSize allowed s s') :
    s.log.length ≤ s'.log.length ∧ (s'.log.length = s.log.length → s'.Settled) := by
  induction hruns with
  | refl => exact ⟨Nat.le_refl _, fun _ => h⟩
  | @tail t u label hruns hstep hallowed ih =>
    have hle := hstep.log_length
    refine ⟨ih.1.trans hle, ?_⟩
    intro hlog
    have hsame : t.log.length = s.log.length := by omega
    exact (ih.2 hsame).step hstep (hlog.trans hsame.symm)

theorem MainAt.past_of_inReply {main : MainAt α β} (h : main.InReply) : MainAt.Past main := by
  cases main with
  | sending | releasing => trivial
  | warmup | warmingUp | receiving | forwarding | emitting | replying | stopped => exact h.elim

theorem semaphore_exclusive (maxBatchSize : ℕ) (warmup : List StreamEvent) {s : Threads α β}
    (h : Runs maxBatchSize TimesOutQuietly (initial warmup) s) :
    s.Exclusive ∧ (s.main.InReply → ∀ t, Runs maxBatchSize TimesOutQuietly s t →
      t.log.length = s.log.length → t.Quiet) := by
  have hexclusive := ((Claimed.initial warmup).runs h).exclusive
  refine ⟨hexclusive, ?_⟩
  intro hreply t hruns hlog
  have hsettled : s.Settled := ⟨MainAt.past_of_inReply hreply, hexclusive.inReply hreply⟩
  exact ((hsettled.runs hruns).2 hlog).quiet

def echoing : WorkerCalls Bytes Bytes where
  deserialize := fun _ payload => .ok payload
  deserializeIpc := fun _ payload => .ok payload
  forwardBatch := fun data => .ok data
  forwardOne := fun datum => .ok datum
  serialize := fun _ data => .ok data
  serializeIpc := fun _ data => .ok data

def oneEvent : SseBatch Bytes Bytes := ⟨[⟨[0, 0, 0, 7], 3, []⟩], echoing, [([], 0)]⟩

def oneEventFrame : Bytes := [128, 0, 0, 1, 0, 0, 0, 7, 0, 0, 0, 0, 0, 0]

def oneReplyFrame : Bytes := [0, 1, 0, 1, 0, 0, 0, 7, 0, 3, 0, 0, 0, 0]

def eventInSend : Threads Bytes Bytes where
  main := .replying oneEvent none
  streamer := .sending oneEventFrame
  value := 0
  queue := []
  currentIds := [[0, 0, 0, 7]]
  wire := []
  log := [⟨oneEvent, none, [([], 0)], none⟩]

theorem eventInSend_reached (allowed : Threads Bytes Bytes → StreamLabel → Prop)
    (hallowed : ∀ s, allowed s .ordinary) : Runs 1 allowed (initial []) eventInSend := by
  have hinitial : Runs 1 allowed (initial []) (initial []) := .refl
  have hreceiving := hinitial.tail (.warmupEnds rfl) (hallowed _)
  have hforwarding := hreceiving.tail (.receive oneEvent rfl) (hallowed _)
  have hemitting := hforwarding.tail (.acquire oneEvent ([], 0) [] 0 rfl rfl) (hallowed _)
  have hput := hemitting.tail (.put oneEvent ([], 0) [] rfl) (hallowed _)
  have htaken := hput.tail (.streamGet ([], 0) [] rfl rfl) (hallowed _)
  have hsending := htaken.tail (.streamBuild ([], 0) oneEventFrame rfl rfl) (hallowed _)
  exact hsending.tail (.forwardEnds oneEvent rfl) (hallowed _)

theorem semaphore_exclusive_event : eventInSend.Exclusive :=
  (semaphore_exclusive 1 [] (eventInSend_reached TimesOutQuietly fun _ => nofun)).1

theorem semaphore_not_exclusive :
    (∃ s : Threads Bytes Bytes, Runs 1 (fun _ _ => True) (initial []) s ∧
      s.main = .sending false oneReplyFrame ∧ s.streamer = .sending oneEventFrame) ∧
    ∃ s : Threads Bytes Bytes, Runs 1 (fun _ _ => True) (initial []) s ∧ s.main = .receiving ∧
      s.streamer = .sending oneEventFrame ∧ s.wire = oneReplyFrame ∧ s.permits = 2 := by
  have hevent := eventInSend_reached (fun _ _ => True) fun _ => trivial
  have hboth := hevent.tail (.acquireTimesOut oneEvent none (.OK, [[]]) rfl rfl rfl) trivial
  have hwritten := hboth.tail (.write false oneReplyFrame [] rfl) trivial
  have hsent := hwritten.tail (.sent false rfl) trivial
  have hreleased := hsent.tail (.release false true rfl) trivial
  exact ⟨⟨_, hboth, rfl, rfl⟩, _, hreleased, rfl, rfl, rfl, rfl⟩

end Threads

end Mosec
