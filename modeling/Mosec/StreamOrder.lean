import Mosec.StreamMutex

namespace Mosec

open Protocol (HTTPStatusCode)

variable {α β : Type}

/-- The frames of a batch: its events in the order of the calls, then the reply. -/
def Record.due (r : Record α β) : List (Option Bytes) :=
  r.calls.map (eventFrame r.batch.ids) ++ (r.reply.map some).toList

def due (log : List (Record α β)) : List (Option Bytes) := log.reverse.flatMap Record.due

theorem due_cons (r : Record α β) (log : List (Record α β)) : due (r :: log) = due log ++ r.due := by
  unfold due
  rw [List.reverse_cons, List.flatMap_append, List.flatMap_singleton]

def MainAt.left : MainAt α β → Bytes
  | .sending _ left => left
  | _ => []

def StreamerAt.pending : StreamerAt → List StreamEvent
  | .taken event => [event]
  | .dead (some event) => [event]
  | _ => []

def StreamerAt.left : StreamerAt → Bytes
  | .sending left => left
  | _ => []

/-- As `holds`, and one for a permit that died with the thread. -/
def StreamerAt.claims : StreamerAt → ℕ
  | .taken _ => 1
  | .sending _ => 1
  | .sent => 1
  | .dead (some _) => 1
  | _ => 0

theorem StreamerAt.pending_of_claims {streamer : StreamerAt} (h : streamer.claims = 0) :
    streamer.pending = [] ∧ streamer.left = [] := by
  cases streamer with
  | waiting => exact ⟨rfl, rfl⟩
  | taken | sending | sent => exact absurd h Nat.one_ne_zero
  | dead event =>
    cases event with
    | none => exact ⟨rfl, rfl⟩
    | some event => exact absurd h Nat.one_ne_zero

theorem MainAt.left_of_claims {main : MainAt α β} (h : main.claims = 0) : main.left = [] := by
  cases main with
  | sending => exact absurd h Nat.one_ne_zero
  | warmup | warmingUp | receiving | forwarding | emitting | replying | releasing | stopped => rfl

namespace Threads

def unsent (s : Threads α β) : Bytes := s.main.left ++ s.streamer.left

def pending (s : Threads α β) : List StreamEvent := s.streamer.pending ++ s.queue

def claims (s : Threads α β) : ℕ := s.value + s.main.claims + s.queue.length + s.streamer.claims

def Current (maxBatchSize : ℕ) (s : Threads α β) (batch : SseBatch α β) (interrupted : Option PyStr)
    (todo : List StreamEvent) : Prop :=
  ∃ r log, s.log = r :: log ∧ r.batch = batch ∧ r.interrupted = interrupted ∧ r.reply = none ∧
    s.currentIds = batch.ids ∧ (interrupted = none → r.calls ++ todo = batch.script maxBatchSize) ∧
    ∀ r' ∈ log, r'.reply.isSome

def Fits (maxBatchSize : ℕ) (s : Threads α β) : MainAt α β → Prop
  | .warmup todo => todo = [] ∧ s.log = [] ∧ s.queue = [] ∧ s.streamer.claims = 0
  | .warmingUp _ _ => False
  | .receiving => s.queue = [] ∧ s.streamer.claims = 0 ∧ ∀ r ∈ s.log, r.reply.isSome
  | .forwarding batch todo => s.Current maxBatchSize batch none todo
  | .emitting batch event todo => s.Current maxBatchSize batch none (event :: todo)
  | .replying batch interrupted => s.Current maxBatchSize batch interrupted []
  | .sending _ _ => ∀ r ∈ s.log, r.reply.isSome
  | .releasing _ goesOn => goesOn = true → ∀ r ∈ s.log, r.reply.isSome
  | .stopped => True

def Answered (maxBatchSize : ℕ) (r : Record α β) : Prop :=
  ∀ frame, r.reply = some frame →
    (r.batch.reply maxBatchSize r.interrupted).bind r.batch.frame = some frame ∧
      (r.interrupted = none → r.calls = r.batch.script maxBatchSize)

theorem answered_replace {maxBatchSize : ℕ} {r r' : Record α β} {log : List (Record α β)}
    (h : ∀ x ∈ r :: log, Answered maxBatchSize x) (hreply : r'.reply = none) :
    ∀ x ∈ r' :: log, Answered maxBatchSize x := by
  intro x hx
  cases List.mem_cons.mp hx with
  | inl hhead =>
    intro frame hframe
    rw [hhead, hreply] at hframe
    cases hframe
  | inr hrest => exact h x (List.mem_cons_of_mem r hrest)

structure InOrder (maxBatchSize : ℕ) (s : Threads α β) : Prop where
  claims : s.claims ≤ 1
  fits : Fits maxBatchSize s s.main
  answered : ∀ r ∈ s.log, Answered maxBatchSize r
  frames : ∃ frames : List Bytes, s.wire ++ s.unsent = frames.flatten ∧
    due s.log = frames.map some ++ s.pending.map (eventFrame s.currentIds)

theorem InOrder.initial (maxBatchSize : ℕ) :
    InOrder maxBatchSize (initial [] : Threads α β) where
  claims := Nat.le_refl 1
  fits := ⟨rfl, rfl, rfl, rfl⟩
  answered := fun _ hr => absurd hr List.not_mem_nil
  frames := ⟨[], rfl, rfl⟩

def Undisturbed (_ : Threads α β) (label : StreamLabel) : Prop :=
  label ≠ .acquireTimesOut ∧ label ≠ .socketError

theorem InOrder.move {maxBatchSize : ℕ} {s : Threads α β} (h : InOrder maxBatchSize s)
    {main : MainAt α β} {value : ℕ} (hclaims : value + main.claims ≤ s.value + s.main.claims)
    (hleft : main.left = s.main.left)
    (hfits : Fits maxBatchSize { s with main := main, value := value } main) :
    InOrder maxBatchSize { s with main := main, value := value } where
  claims := by
    have hs := h.claims
    unfold Threads.claims at hs ⊢
    dsimp only
    omega
  fits := hfits
  answered := h.answered
  frames := by
    obtain ⟨frames, hwire, hdue⟩ := h.frames
    refine ⟨frames, ?_, hdue⟩
    unfold unsent at hwire ⊢
    rw [hleft]
    exact hwire

theorem InOrder.receive {maxBatchSize : ℕ} {s : Threads α β} (h : InOrder maxBatchSize s)
    (batch : SseBatch α β) (hmain : s.main = .receiving) :
    InOrder maxBatchSize (s.receive maxBatchSize batch) := by
  obtain ⟨hqueue, hstreamer, hall⟩ : s.queue = [] ∧ s.streamer.claims = 0 ∧
      ∀ r ∈ s.log, r.reply.isSome := by
    have hfits := h.fits
    rwa [hmain] at hfits
  have hnew : (s.receive maxBatchSize batch).main.claims = 0 ∧
      (s.receive maxBatchSize batch).main.left = [] := by
    unfold Threads.receive
    split <;> exact ⟨rfl, rfl⟩
  constructor
  · have hclaims := h.claims
    unfold Threads.claims at hclaims ⊢
    rw [hmain] at hclaims
    rw [hnew.1]
    exact hclaims
  · unfold Threads.receive
    split
    case isTrue hforwards =>
      refine ⟨_, _, rfl, rfl, rfl, rfl, rfl, ?_, hall⟩
      exact fun _ => (if_pos hforwards).symm
    case isFalse hforwards =>
      refine ⟨_, _, rfl, rfl, rfl, rfl, rfl, ?_, hall⟩
      exact fun _ => (if_neg hforwards).symm
  · intro r hr
    cases List.mem_cons.mp hr with
    | inl hnew =>
      rw [hnew]
      intro frame hframe
      cases hframe
    | inr hold => exact h.answered r hold
  · obtain ⟨frames, hwire, hdue⟩ := h.frames
    have hpending : s.pending = [] := by
      unfold pending
      rw [hqueue, (StreamerAt.pending_of_claims hstreamer).1]
      rfl
    refine ⟨frames, ?_, ?_⟩
    · unfold unsent at hwire ⊢
      rw [hmain] at hwire
      rw [hnew.2]
      exact hwire
    · have hsame : (s.receive maxBatchSize batch).pending = [] := hpending
      rw [hsame]
      change due (_ :: s.log) = _
      rw [due_cons, hdue, hpending]
      exact List.append_nil _

theorem InOrder.put {maxBatchSize : ℕ} {s : Threads α β} (h : InOrder maxBatchSize s)
    {batch : SseBatch α β} {event : StreamEvent} {todo : List StreamEvent}
    (hmain : s.main = .emitting batch event todo) :
    InOrder maxBatchSize (s.put batch event todo) := by
  obtain ⟨r, log, hlog, hbatch, hint, hreply, hids, hcalls, hall⟩ :
      s.Current maxBatchSize batch none (event :: todo) := by
    have hfits := h.fits
    rwa [hmain] at hfits
  have hput : (s.put batch event todo).log = { r with calls := r.calls ++ [event] } :: log := by
    unfold Threads.put
    dsimp only
    rw [hlog]
    rfl
  constructor
  · have hclaims := h.claims
    unfold Threads.claims at hclaims ⊢
    rw [hmain] at hclaims
    simp only [Threads.put, MainAt.claims, List.length_append, List.length_singleton] at hclaims ⊢
    omega
  · refine ⟨_, log, hput, hbatch, hint, hreply, hids, ?_, hall⟩
    intro hnone
    rw [List.append_assoc]
    exact hcalls hnone
  · rw [hput]
    exact answered_replace (hlog ▸ h.answered) hreply
  · obtain ⟨frames, hwire, hdue⟩ := h.frames
    refine ⟨frames, ?_, ?_⟩
    · unfold unsent at hwire ⊢
      rw [hmain] at hwire
      exact hwire
    · have hpending : (s.put batch event todo).pending = s.pending ++ [event] :=
        (List.append_assoc ..).symm
      have hsame : (s.put batch event todo).currentIds = s.currentIds := rfl
      rw [hput, due_cons, hpending, hsame, List.map_append, ← List.append_assoc, ← hdue, hlog,
        due_cons]
      simp only [Record.due, hreply, hbatch, hids, List.map_append, List.map_singleton,
        Option.map_none, Option.toList_none, List.append_nil, List.append_assoc]

theorem InOrder.interrupt {maxBatchSize : ℕ} {s : Threads α β} (h : InOrder maxBatchSize s)
    {batch : SseBatch α β} {todo : List StreamEvent} (str : PyStr)
    (hcurrent : s.Current maxBatchSize batch none todo) (hleft : s.main.left = []) :
    InOrder maxBatchSize (s.interrupt batch str) := by
  obtain ⟨r, log, hlog, hbatch, -, hreply, hids, -, hall⟩ := hcurrent
  have hint : (s.interrupt batch str).log = { r with interrupted := some str } :: log := by
    unfold Threads.interrupt
    dsimp only
    rw [hlog]
    rfl
  constructor
  · have hclaims := h.claims
    unfold Threads.claims at hclaims ⊢
    simp only [Threads.interrupt, MainAt.claims] at hclaims ⊢
    omega
  · refine ⟨_, log, hint, hbatch, rfl, hreply, hids, fun hnone => ?_, hall⟩
    cases hnone
  · rw [hint]
    exact answered_replace (hlog ▸ h.answered) hreply
  · obtain ⟨frames, hwire, hdue⟩ := h.frames
    refine ⟨frames, ?_, ?_⟩
    · unfold unsent at hwire ⊢
      rw [hleft] at hwire
      exact hwire
    · rw [hint, due_cons]
      rw [hlog, due_cons] at hdue
      exact hdue

theorem InOrder.beginReply {maxBatchSize : ℕ} {s : Threads α β} (h : InOrder maxBatchSize s)
    {batch : SseBatch α β} {interrupted : Option PyStr} {reply : HTTPStatusCode × List Bytes}
    {value : ℕ} (hmain : s.main = .replying batch interrupted)
    (hreply : batch.reply maxBatchSize interrupted = some reply) (hvalue : s.value = value + 1) :
    InOrder maxBatchSize
      (({ s with value := value } : Threads α β).beginReply true (batch.frame reply)) := by
  cases hframe : batch.frame reply with
  | none =>
    refine h.move ?_ ?_ fun h => Bool.noConfusion h
    · rw [hmain, hvalue]
      exact Nat.le_refl _
    · rw [hmain]
      rfl
  | some frame =>
    obtain ⟨r, log, hlog, hbatch, hint, hnone, hids, hcalls, hall⟩ :
        s.Current maxBatchSize batch interrupted [] := by
      have hfits := h.fits
      rwa [hmain] at hfits
    have hbegin : (({ s with value := value } : Threads α β).beginReply true (some frame)).log =
        { r with reply := some frame } :: log := by
      unfold Threads.beginReply
      dsimp only
      rw [hlog]
      rfl
    have hclaims := h.claims
    unfold Threads.claims at hclaims
    rw [hmain, hvalue] at hclaims
    have hqueue : s.queue = [] := List.length_eq_zero_iff.mp (by omega)
    have hstreamer : s.streamer.claims = 0 := by omega
    constructor
    · exact hclaims
    · change ∀ r ∈ _, _
      rw [hbegin]
      intro r' hr'
      cases List.mem_cons.mp hr' with
      | inl hhead =>
        rw [hhead]
        rfl
      | inr hrest => exact hall r' hrest
    · intro r' hr'
      rw [hbegin] at hr'
      cases List.mem_cons.mp hr' with
      | inl hhead =>
        intro frame' hframe'
        rw [hhead] at hframe'
        cases hframe'
        rw [hhead]
        refine ⟨?_, ?_⟩
        · change (r.batch.reply maxBatchSize r.interrupted).bind r.batch.frame = some frame
          rw [hbatch, hint, hreply]
          exact hframe
        · intro hnot
          have hscript := hcalls (hint.symm.trans hnot)
          rw [List.append_nil] at hscript
          change r.calls = r.batch.script maxBatchSize
          rw [hbatch]
          exact hscript
      | inr hrest => exact h.answered r' (hlog ▸ List.mem_cons_of_mem r hrest)
    · obtain ⟨frames, hwire, hdue⟩ := h.frames
      obtain ⟨hpend, hleft⟩ := StreamerAt.pending_of_claims hstreamer
      have hpending : s.pending = [] := by
        unfold pending
        rw [hqueue, hpend]
        rfl
      refine ⟨frames ++ [frame], ?_, ?_⟩
      · unfold unsent at hwire ⊢
        rw [hmain, hleft] at hwire
        change s.wire ++ (frame ++ s.streamer.left) = _
        rw [hleft, List.append_nil, List.flatten_concat, ← hwire]
        exact congrArg (· ++ frame) (List.append_nil s.wire).symm
      · have hsame : (({ s with value := value } : Threads α β).beginReply true
            (some frame)).pending = [] := hpending
        rw [hpending, hlog, due_cons] at hdue
        rw [hbegin, due_cons, hsame, List.map_append, List.map_nil, List.append_nil]
        rw [List.map_nil, List.append_nil] at hdue
        rw [← hdue]
        simp only [Record.due, hnone, Option.map_none, Option.map_some, Option.toList_none,
          Option.toList_some, List.append_nil, List.append_assoc, List.map_singleton]

theorem Fits.streamer {maxBatchSize : ℕ} {s s' : Threads α β}
    (h : Fits maxBatchSize s s.main) (hmain : s'.main = s.main) (hlog : s'.log = s.log)
    (hids : s'.currentIds = s.currentIds)
    (hidle : s.queue = [] → s.streamer.claims = 0 → s'.queue = [] ∧ s'.streamer.claims = 0) :
    Fits maxBatchSize s' s'.main := by
  rw [hmain]
  have hcurrent : ∀ batch interrupted todo, s.Current maxBatchSize batch interrupted todo →
      s'.Current maxBatchSize batch interrupted todo := by
    intro batch interrupted todo hc
    unfold Current at hc ⊢
    rwa [hlog, hids]
  cases hat : s.main with
  | warmup todo =>
    rw [hat] at h
    obtain ⟨htodo, hempty, hqueue, hclaims⟩ := h
    exact ⟨htodo, hlog.trans hempty, hidle hqueue hclaims⟩
  | warmingUp event todo =>
    rw [hat] at h
    exact h
  | receiving =>
    rw [hat] at h
    obtain ⟨hqueue, hclaims, hall⟩ := h
    obtain ⟨hqueue', hclaims'⟩ := hidle hqueue hclaims
    exact ⟨hqueue', hclaims', hlog ▸ hall⟩
  | forwarding batch todo =>
    rw [hat] at h
    exact hcurrent _ _ _ h
  | emitting batch event todo =>
    rw [hat] at h
    exact hcurrent _ _ _ h
  | replying batch interrupted =>
    rw [hat] at h
    exact hcurrent _ _ _ h
  | sending acquired left =>
    rw [hat] at h
    change ∀ r ∈ s'.log, r.reply.isSome
    rw [hlog]
    exact h
  | releasing acquired goesOn =>
    rw [hat] at h
    change goesOn = true → ∀ r ∈ s'.log, r.reply.isSome
    rw [hlog]
    exact h
  | stopped => trivial

theorem InOrder.streamGet {maxBatchSize : ℕ} {s : Threads α β} (h : InOrder maxBatchSize s)
    {event : StreamEvent} {queue : List StreamEvent} (hstreamer : s.streamer = .waiting)
    (hqueue : s.queue = event :: queue) :
    InOrder maxBatchSize { s with streamer := .taken event, queue := queue } where
  claims := by
    have hclaims := h.claims
    unfold Threads.claims at hclaims ⊢
    rw [hstreamer, hqueue] at hclaims
    simp only [StreamerAt.claims, List.length_cons] at hclaims ⊢
    omega
  fits := by
    refine h.fits.streamer rfl rfl rfl ?_
    intro hempty
    rw [hqueue] at hempty
    cases hempty
  answered := h.answered
  frames := by
    obtain ⟨frames, hwire, hdue⟩ := h.frames
    refine ⟨frames, ?_, ?_⟩
    · unfold unsent at hwire ⊢
      rw [hstreamer] at hwire
      exact hwire
    · unfold pending at hdue ⊢
      rw [hstreamer, hqueue] at hdue
      exact hdue

theorem InOrder.moveStreamer {maxBatchSize : ℕ} {s : Threads α β} (h : InOrder maxBatchSize s)
    {streamer : StreamerAt} {value : ℕ}
    (hclaims : value + streamer.claims ≤ s.value + s.streamer.claims)
    (hidle : s.streamer.claims = 0 → streamer.claims = 0)
    (hleft : streamer.left = s.streamer.left) (hpending : streamer.pending = s.streamer.pending) :
    InOrder maxBatchSize { s with streamer := streamer, value := value } where
  claims := by
    have hs := h.claims
    unfold Threads.claims at hs ⊢
    dsimp only
    omega
  fits := h.fits.streamer rfl rfl rfl fun hqueue hzero => ⟨hqueue, hidle hzero⟩
  answered := h.answered
  frames := by
    obtain ⟨frames, hwire, hdue⟩ := h.frames
    refine ⟨frames, ?_, ?_⟩
    · unfold unsent at hwire ⊢
      rw [hleft]
      exact hwire
    · unfold pending at hdue ⊢
      rw [hpending]
      exact hdue

theorem InOrder.main_left {maxBatchSize : ℕ} {s : Threads α β} (h : InOrder maxBatchSize s)
    (hstreamer : s.streamer.claims = 1) : s.main.left = [] := by
  have hclaims := h.claims
  unfold Threads.claims at hclaims
  exact MainAt.left_of_claims (by omega)

theorem InOrder.streamBuild {maxBatchSize : ℕ} {s : Threads α β} (h : InOrder maxBatchSize s)
    {event : StreamEvent} {frame : Bytes} (hstreamer : s.streamer = .taken event)
    (hframe : eventFrame s.currentIds event = some frame) :
    InOrder maxBatchSize { s with streamer := .sending frame } where
  claims := by
    have hclaims := h.claims
    unfold Threads.claims at hclaims ⊢
    rw [hstreamer] at hclaims
    exact hclaims
  fits := by
    refine h.fits.streamer rfl rfl rfl ?_
    intro hqueue hzero
    rw [hstreamer] at hzero
    exact absurd hzero Nat.one_ne_zero
  answered := h.answered
  frames := by
    obtain ⟨frames, hwire, hdue⟩ := h.frames
    have hmain := h.main_left (by rw [hstreamer]; rfl)
    refine ⟨frames ++ [frame], ?_, ?_⟩
    · unfold unsent at hwire ⊢
      rw [hmain, hstreamer] at hwire
      change s.wire ++ (s.main.left ++ frame) = _
      rw [hmain, List.nil_append, List.flatten_concat, ← hwire]
      exact congrArg (· ++ frame) (List.append_nil s.wire).symm
    · unfold pending at hdue ⊢
      rw [hstreamer] at hdue
      rw [hdue]
      simp only [StreamerAt.pending, List.map_append, List.map_singleton, List.nil_append,
        List.append_assoc, hframe]

theorem InOrder.streamWrite {maxBatchSize : ℕ} {s : Threads α β} (h : InOrder maxBatchSize s)
    {chunk left : Bytes} (hstreamer : s.streamer = .sending (chunk ++ left)) :
    InOrder maxBatchSize { s with streamer := .sending left, wire := s.wire ++ chunk } where
  claims := by
    have hclaims := h.claims
    unfold Threads.claims at hclaims ⊢
    rw [hstreamer] at hclaims
    exact hclaims
  fits := by
    refine h.fits.streamer rfl rfl rfl ?_
    intro hqueue hzero
    rw [hstreamer] at hzero
    exact absurd hzero Nat.one_ne_zero
  answered := h.answered
  frames := by
    obtain ⟨frames, hwire, hdue⟩ := h.frames
    have hmain := h.main_left (by rw [hstreamer]; rfl)
    refine ⟨frames, ?_, ?_⟩
    · unfold unsent at hwire ⊢
      rw [hmain, hstreamer] at hwire
      change s.wire ++ chunk ++ (s.main.left ++ left) = _
      rw [hmain, List.append_assoc]
      exact hwire
    · unfold pending at hdue ⊢
      rw [hstreamer] at hdue
      exact hdue

theorem InOrder.write {maxBatchSize : ℕ} {s : Threads α β} (h : InOrder maxBatchSize s)
    {acquired : Bool} {chunk left : Bytes} (hmain : s.main = .sending acquired (chunk ++ left)) :
    InOrder maxBatchSize { s with main := .sending acquired left, wire := s.wire ++ chunk } where
  claims := by
    have hclaims := h.claims
    unfold Threads.claims at hclaims ⊢
    rw [hmain] at hclaims
    exact hclaims
  fits := by
    have hfits := h.fits
    rw [hmain] at hfits
    exact hfits
  answered := h.answered
  frames := by
    obtain ⟨frames, hwire, hdue⟩ := h.frames
    refine ⟨frames, ?_, hdue⟩
    unfold unsent at hwire ⊢
    rw [hmain] at hwire
    rw [← hwire]
    simp only [MainAt.left, List.append_assoc]

theorem InOrder.step {maxBatchSize : ℕ} {s s' : Threads α β} {label : StreamLabel}
    (h : InOrder maxBatchSize s) (hs : Step maxBatchSize s label s') (hlabel : Undisturbed s label) :
    InOrder maxBatchSize s' := by
  have hfits := h.fits
  cases hs with
  | warmupAcquire event todo value hmain hvalue =>
    rw [hmain] at hfits
    cases hfits.1
  | warmupPut event todo hmain =>
    rw [hmain] at hfits
    exact hfits.elim
  | warmupEnds hmain =>
    rw [hmain] at hfits
    obtain ⟨-, hlog, hqueue, hstreamer⟩ := hfits
    refine h.move (hmain ▸ Nat.le_refl _) (hmain ▸ rfl) ⟨hqueue, hstreamer, ?_⟩
    intro r hr
    rw [hlog] at hr
    cases hr
  | receive batch hmain => exact h.receive batch hmain
  | shutdown hmain => exact h.move (hmain ▸ Nat.le_refl _) (hmain ▸ rfl) trivial
  | receiveFails hmain => exact absurd rfl hlabel.2
  | acquire batch event todo value hmain hvalue =>
    rw [hmain] at hfits
    exact h.move (by rw [hmain, hvalue]; exact Nat.le_refl _) (hmain ▸ rfl) hfits
  | put batch event todo hmain => exact h.put hmain
  | forwardEnds batch hmain =>
    rw [hmain] at hfits
    exact h.move (hmain ▸ Nat.le_refl _) (hmain ▸ rfl) hfits
  | interrupt batch todo str hmain =>
    rw [hmain] at hfits
    exact h.interrupt str hfits (hmain ▸ rfl)
  | interruptHolding batch event todo str hmain =>
    rw [hmain] at hfits
    exact h.interrupt str hfits (hmain ▸ rfl)
  | escape batch interrupted hmain hreply =>
    exact h.move (hmain ▸ Nat.le_refl _) (hmain ▸ rfl) trivial
  | acquireReply batch interrupted reply value hmain hreply hvalue =>
    exact h.beginReply hmain hreply hvalue
  | acquireTimesOut batch interrupted reply hmain hreply hvalue => exact absurd rfl hlabel.1
  | write acquired chunk left hmain => exact h.write hmain
  | sent acquired hmain =>
    rw [hmain] at hfits
    exact h.move (hmain ▸ Nat.le_refl _) (hmain ▸ rfl) fun _ => hfits
  | sendFails acquired left hmain => exact absurd rfl hlabel.2
  | release acquired goesOn hmain =>
    rw [hmain] at hfits
    have hclaims := h.claims
    unfold Threads.claims at hclaims
    rw [hmain] at hclaims
    simp only [MainAt.claims] at hclaims
    cases goesOn with
    | true =>
      have hqueue : s.queue = [] := List.length_eq_zero_iff.mp (by omega)
      have hstreamer : s.streamer.claims = 0 := by omega
      exact h.move (hmain ▸ Nat.le_refl _) (hmain ▸ rfl) ⟨hqueue, hstreamer, hfits rfl⟩
    | false => exact h.move (hmain ▸ Nat.le_refl _) (hmain ▸ rfl) trivial
  | streamGet event queue hstreamer hqueue => exact h.streamGet hstreamer hqueue
  | streamBuild event frame hstreamer hframe => exact h.streamBuild hstreamer hframe
  | streamRaises event hstreamer hframe =>
    exact h.moveStreamer (hstreamer ▸ Nat.le_refl _) (hstreamer ▸ fun hz => hz) (hstreamer ▸ rfl)
      (hstreamer ▸ rfl)
  | streamWrite chunk left hstreamer => exact h.streamWrite hstreamer
  | streamSent hstreamer =>
    exact h.moveStreamer (hstreamer ▸ Nat.le_refl _) (hstreamer ▸ fun hz => hz) (hstreamer ▸ rfl)
      (hstreamer ▸ rfl)
  | streamFails left hstreamer => exact absurd rfl hlabel.2
  | streamRelease hstreamer =>
    exact h.moveStreamer (hstreamer ▸ Nat.le_refl _) (fun _ => rfl) (hstreamer ▸ rfl)
      (hstreamer ▸ rfl)
  | streamStops hstreamer =>
    exact h.moveStreamer (hstreamer ▸ Nat.le_refl _) (fun _ => rfl) (hstreamer ▸ rfl)
      (hstreamer ▸ rfl)

theorem InOrder.runs {maxBatchSize : ℕ} {s s' : Threads α β} (h : InOrder maxBatchSize s)
    (hruns : Runs maxBatchSize Undisturbed s s') : InOrder maxBatchSize s' := by
  induction hruns with
  | refl => exact h
  | tail hruns hstep hallowed ih => exact ih.step hstep hallowed

theorem events_in_order (maxBatchSize : ℕ) {s : Threads α β}
    (h : Runs maxBatchSize Undisturbed (initial []) s) :
    (∃ frames : List Bytes, s.wire ++ s.unsent = frames.flatten ∧
      frames.map some <+: due s.log ∧
      (s.main = .receiving → s.unsent = [] ∧ frames.map some = due s.log ∧
        ∀ r ∈ s.log, r.reply.isSome)) ∧
    (∀ r ∈ s.log, Answered maxBatchSize r) ∧ ¬ (s.main.InSend ∧ s.streamer.InSend) := by
  have horder := (InOrder.initial maxBatchSize).runs h
  obtain ⟨frames, hwire, hdue⟩ := horder.frames
  refine ⟨⟨frames, hwire, ⟨_, hdue.symm⟩, ?_⟩, horder.answered, ?_⟩
  · intro hmain
    have hfits := horder.fits
    rw [hmain] at hfits
    obtain ⟨hqueue, hstreamer, hall⟩ := hfits
    obtain ⟨hpend, hleft⟩ := StreamerAt.pending_of_claims hstreamer
    refine ⟨?_, ?_, hall⟩
    · unfold unsent
      rw [hmain, hleft]
      rfl
    · unfold pending at hdue
      rw [hqueue, hpend] at hdue
      exact (hdue.trans (List.append_nil _)).symm
  · rintro ⟨hmain, hstreamer⟩
    have hclaims := horder.claims
    unfold Threads.claims at hclaims
    have hm := MainAt.claims_of_inReply (MainAt.inReply_of_inSend hmain)
    cases hat : s.streamer with
    | sending left =>
      rw [hat, hm] at hclaims
      simp only [StreamerAt.claims] at hclaims
      omega
    | waiting | taken | sent | dead =>
      rw [hat] at hstreamer
      exact hstreamer

theorem events_in_order_event : ∃ s : Threads Bytes Bytes, Runs 1 Undisturbed (initial []) s ∧
    s.wire = oneEventFrame ++ oneReplyFrame ∧
      ∃ frames : List Bytes, s.wire ++ s.unsent = frames.flatten ∧ frames.map some = due s.log := by
  have hordinary : ∀ s : Threads Bytes Bytes, Undisturbed s .ordinary := fun _ => ⟨nofun, nofun⟩
  have hsending := eventInSend_reached Undisturbed hordinary
  have hwritten := hsending.tail (.streamWrite oneEventFrame [] rfl) (hordinary _)
  have hsent := hwritten.tail (.streamSent rfl) (hordinary _)
  have hreleased := hsent.tail (.streamRelease rfl) (hordinary _)
  have hreplying := hreleased.tail
    (.acquireReply oneEvent none (.OK, [[]]) 0 rfl rfl rfl) (hordinary _)
  have hreplied := hreplying.tail (.write true oneReplyFrame [] rfl) (hordinary _)
  have hended := hreplied.tail (.sent true rfl) (hordinary _)
  have hreceiving := hended.tail (.release true true rfl) (hordinary _)
  obtain ⟨⟨frames, hwire, -, hall⟩, -⟩ := events_in_order 1 hreceiving
  exact ⟨_, hreceiving, rfl, frames, hwire, (hall rfl).2.1⟩

end Threads

end Mosec
