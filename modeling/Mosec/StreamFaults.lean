import Mosec.Failures
import Mosec.StreamMutex

namespace Mosec

open Protocol (HTTPStatusCode)

/-- An event that `streaming` can send: its text has no lone surrogate and fits a frame, and its
index is one of the current batch. -/
structure WellFormedEvent (ids : List Bytes) (event : StreamEvent) : Prop where
  text : ∃ payload, event.1.encode = some payload ∧ payload.length < 2 ^ 32
  index : -(ids.length : ℤ) ≤ event.2 ∧ event.2 < ids.length

theorem pyIndex_isSome (ids : List Bytes) (index : ℤ) :
    (pyIndex ids index).isSome ↔ -(ids.length : ℤ) ≤ index ∧ index < ids.length := by
  unfold pyIndex
  split
  · rw [isSome_getElem?]
    omega
  · split
    · rw [isSome_getElem?]
      omega
    · simp only [Option.isSome_none, Bool.false_eq_true, false_iff]
      omega

theorem eventFrame_isSome (ids : List Bytes) (event : StreamEvent) :
    (eventFrame ids event).isSome ↔ WellFormedEvent ids event := by
  have hsend (id payload : Bytes) :
      (Protocol.send HTTPStatusCode.STREAM_EVENT.value [id] [0] [payload]).toOption.isSome ↔
        payload.length < 2 ^ 32 := by
    have htext := @Protocol.send_text [⟨id, 0, payload⟩] .STREAM_EVENT payload (by simp) (by simp)
    simp only [List.map_cons, List.map_nil, List.length_singleton, List.replicate_one, ne_eq,
      List.cons_ne_nil, not_false_eq_true, forall_const] at htext
    rw [← htext]
    cases Protocol.send HTTPStatusCode.STREAM_EVENT.value [id] [0] [payload] with
    | error err => simp [Except.toOption]
    | ok frame => simp [Except.toOption]
  constructor
  · intro h
    obtain ⟨frame, hframe⟩ := Option.isSome_iff_exists.mp h
    obtain ⟨payload, hpayload, hframe⟩ := Option.bind_eq_some_iff.mp hframe
    obtain ⟨id, hid, hframe⟩ := Option.bind_eq_some_iff.mp hframe
    have hlength := (hsend id payload).mp (Option.isSome_iff_exists.mpr ⟨frame, hframe⟩)
    exact ⟨⟨payload, hpayload, hlength⟩, (pyIndex_isSome ids event.2).mp (by rw [hid]; rfl)⟩
  · rintro ⟨⟨payload, hpayload, hlength⟩, hindex⟩
    obtain ⟨id, hid⟩ := Option.isSome_iff_exists.mp ((pyIndex_isSome ids event.2).mpr hindex)
    obtain ⟨frame, hframe⟩ := Option.isSome_iff_exists.mp ((hsend id payload).mpr hlength)
    refine Option.isSome_iff_exists.mpr ⟨frame, Option.bind_eq_some_iff.mpr ⟨payload, hpayload, ?_⟩⟩
    exact Option.bind_eq_some_iff.mpr ⟨id, hid, hframe⟩

inductive StreamMove (ids : List Bytes) : StreamerAt → StreamerAt → Prop
  | stays (streamer : StreamerAt) : StreamMove ids streamer streamer
  | gets (event : StreamEvent) : StreamMove ids .waiting (.taken event)
  | builds (event : StreamEvent) (frame : Bytes) (hframe : eventFrame ids event = some frame) :
      StreamMove ids (.taken event) (.sending frame)
  | raises (event : StreamEvent) (hframe : eventFrame ids event = none) :
      StreamMove ids (.taken event) (.dead (some event))
  | writes (chunk left : Bytes) : StreamMove ids (.sending (chunk ++ left)) (.sending left)
  | sent : StreamMove ids (.sending []) .sent
  | fails (left : Bytes) : StreamMove ids (.sending left) (.dead none)
  | releases : StreamMove ids .sent .waiting
  | stops : StreamMove ids .waiting (.dead none)

/-- What the streaming thread has done with the events: how many it took from the queue, sent in
full and gave a permit back for, and whether it ended because the shutdown was set. -/
structure StreamTally where
  taken : ℕ
  sent : ℕ
  returned : ℕ
  stopped : Bool
  deriving DecidableEq, Repr

def StreamTally.after (tally : StreamTally) : StreamerAt → StreamerAt → StreamTally
  | .waiting, .taken _ => { tally with taken := tally.taken + 1 }
  | .sending _, .sent => { tally with sent := tally.sent + 1 }
  | .sent, .waiting => { tally with returned := tally.returned + 1 }
  | .waiting, .dead _ => { tally with stopped := true }
  | _, _ => tally

def StreamerAt.unsent : StreamerAt → ℕ
  | .taken _ => 1
  | .sending _ => 1
  | _ => 0

/-- The thread runs until the shutdown, and every event it took has been sent and has given its
permit back once, but for the one in hand. -/
structure KeepsStreaming (streamer : StreamerAt) (tally : StreamTally) : Prop where
  alive : ∀ event, streamer = .dead event → tally.stopped
  permits : tally.returned + streamer.holds = tally.taken
  sent : tally.sent + streamer.unsent = tally.taken

structure Faultless (ids : List Bytes) (before after : StreamerAt) : Prop where
  event : ∀ event, before = .taken event → after ≠ before → WellFormedEvent ids event
  socket : ∀ left event, before = .sending left → after ≠ .dead event

theorem StreamTally.after_self (tally : StreamTally) (streamer : StreamerAt) :
    tally.after streamer streamer = tally := by
  cases streamer <;> rfl

def StreamFailed (streamer : StreamerAt) (tally : StreamTally) : Prop :=
  (∃ event, streamer = .dead event) ∧ tally.stopped = false

structure Running (streamer : StreamerAt) (tally : StreamTally) : Prop where
  keeps : KeepsStreaming streamer tally
  stopped : tally.stopped → ∃ event, streamer = .dead event

theorem StreamFailed.not_keeps {streamer : StreamerAt} {tally : StreamTally}
    (h : StreamFailed streamer tally) : ¬ KeepsStreaming streamer tally := by
  intro hkeeps
  obtain ⟨⟨event, hdead⟩, hstopped⟩ := h
  rw [hkeeps.alive event hdead] at hstopped
  cases hstopped

theorem StreamFailed.move {ids : List Bytes} {before after : StreamerAt} {tally : StreamTally}
    (h : StreamFailed before tally) (hmove : StreamMove ids before after) :
    StreamFailed after (tally.after before after) := by
  obtain ⟨⟨event, rfl⟩, hstopped⟩ := h
  cases hmove with
  | stays => exact ⟨⟨event, rfl⟩, hstopped⟩

theorem Running.of_going {streamer : StreamerAt} {tally : StreamTally}
    (hrunning : tally.stopped = false) (halive : ∀ event, streamer ≠ .dead event)
    (hpermits : tally.returned + streamer.holds = tally.taken)
    (hsent : tally.sent + streamer.unsent = tally.taken) : Running streamer tally := by
  refine ⟨⟨fun event hdead => absurd hdead (halive event), hpermits, hsent⟩, fun hstopped => ?_⟩
  rw [hrunning] at hstopped
  cases hstopped

theorem Running.going {streamer : StreamerAt} {tally : StreamTally} (h : Running streamer tally)
    (halive : ∀ event, streamer ≠ .dead event) : tally.stopped = false := by
  refine Bool.eq_false_iff.mpr fun hstopped => ?_
  obtain ⟨event, hdead⟩ := h.stopped hstopped
  exact halive event hdead

theorem Faultless.of_not_taken {ids : List Bytes} {before after : StreamerAt}
    (hevent : ∀ event, before ≠ .taken event) (hsocket : ∀ event, after ≠ .dead event) :
    Faultless ids before after :=
  ⟨fun event htaken => absurd htaken (hevent event), fun _ event _ => hsocket event⟩

theorem Faultless.of_waiting {ids : List Bytes} (after : StreamerAt) :
    Faultless ids .waiting after := by
  constructor
  · rintro _ ⟨⟩
  · rintro _ _ ⟨⟩

theorem Running.move {ids : List Bytes} {before after : StreamerAt} {tally : StreamTally}
    (h : Running before tally) (hmove : StreamMove ids before after) :
    (Faultless ids before after → Running after (tally.after before after)) ∧
      (¬ Faultless ids before after → StreamFailed after (tally.after before after)) := by
  have hgoing := h.going
  obtain ⟨⟨halive, hpermits, hsent⟩, hstopped⟩ := h
  cases hmove with
  | stays =>
    rw [StreamTally.after_self]
    refine ⟨fun _ => ⟨⟨halive, hpermits, hsent⟩, hstopped⟩, fun hfault => absurd ?_ hfault⟩
    exact ⟨fun _ _ hne => absurd rfl hne, fun left event hsending hdead => by
      rw [hsending] at hdead
      cases hdead⟩
  | gets event =>
    refine ⟨fun _ => ?_, fun hfault => absurd (.of_waiting _) hfault⟩
    simp only [StreamerAt.holds, StreamerAt.unsent] at hpermits hsent
    refine .of_going (hgoing (by rintro _ ⟨⟩)) (by rintro _ ⟨⟩) ?_ ?_
    · simp only [StreamTally.after, StreamerAt.holds]
      omega
    · simp only [StreamTally.after, StreamerAt.unsent]
      omega
  | builds event frame hframe =>
    have hwell : WellFormedEvent ids event := (eventFrame_isSome ids event).mp (by rw [hframe]; rfl)
    refine ⟨fun _ => ?_, fun hfault => absurd ?_ hfault⟩
    · exact .of_going (hgoing (by rintro _ ⟨⟩)) (by rintro _ ⟨⟩) hpermits hsent
    · constructor
      · rintro event' heq -
        cases heq
        exact hwell
      · rintro _ _ ⟨⟩
  | raises event hframe =>
    refine ⟨fun hfaultless => ?_, fun _ => ⟨⟨_, rfl⟩, hgoing (by rintro _ ⟨⟩)⟩⟩
    have hsome := (eventFrame_isSome ids event).mpr
      (hfaultless.event event rfl (by rintro ⟨⟩))
    rw [hframe] at hsome
    cases hsome
  | writes chunk left =>
    refine ⟨fun _ => ?_, fun hfault => absurd ?_ hfault⟩
    · exact .of_going (hgoing (by rintro _ ⟨⟩)) (by rintro _ ⟨⟩) hpermits hsent
    · exact .of_not_taken (by rintro _ ⟨⟩) (by rintro _ ⟨⟩)
  | sent =>
    refine ⟨fun _ => ?_, fun hfault => absurd ?_ hfault⟩
    · simp only [StreamerAt.unsent] at hsent
      exact .of_going (hgoing (by rintro _ ⟨⟩)) (by rintro _ ⟨⟩) hpermits hsent
    · exact .of_not_taken (by rintro _ ⟨⟩) (by rintro _ ⟨⟩)
  | fails left =>
    exact ⟨fun hfaultless => absurd rfl (hfaultless.socket left none rfl),
      fun _ => ⟨⟨_, rfl⟩, hgoing (by rintro _ ⟨⟩)⟩⟩
  | releases =>
    refine ⟨fun _ => ?_, fun hfault => absurd ?_ hfault⟩
    · exact .of_going (hgoing (by rintro _ ⟨⟩)) (by rintro _ ⟨⟩) hpermits hsent
    · exact .of_not_taken (by rintro _ ⟨⟩) (by rintro _ ⟨⟩)
  | stops =>
    refine ⟨fun _ => ?_, fun hfault => absurd (.of_waiting _) hfault⟩
    exact ⟨⟨fun _ _ => rfl, hpermits, hsent⟩, fun _ => ⟨none, rfl⟩⟩

namespace Threads

variable {α β : Type} {maxBatchSize : ℕ} {s s' : Threads α β} {label : StreamLabel}

theorem beginReply_streamer (s : Threads α β) (acquired : Bool) (frame : Option Bytes) :
    (s.beginReply acquired frame).streamer = s.streamer := by
  cases frame <;> rfl

theorem Step.streamMove (h : Step maxBatchSize s label s') :
    StreamMove s.currentIds s.streamer s'.streamer := by
  cases h with
  | streamGet event queue hstreamer hqueue =>
    rw [hstreamer]
    exact .gets event
  | streamBuild event frame hstreamer hframe =>
    rw [hstreamer]
    exact .builds event frame hframe
  | streamRaises event hstreamer hframe =>
    rw [hstreamer]
    exact .raises event hframe
  | streamWrite chunk left hstreamer =>
    rw [hstreamer]
    exact .writes chunk left
  | streamSent hstreamer =>
    rw [hstreamer]
    exact .sent
  | streamFails left hstreamer =>
    rw [hstreamer]
    exact .fails left
  | streamRelease hstreamer =>
    rw [hstreamer]
    exact .releases
  | streamStops hstreamer =>
    rw [hstreamer]
    exact .stops
  | acquireReply batch interrupted reply value hmain hreply hvalue =>
    rw [beginReply_streamer]
    exact .stays _
  | acquireTimesOut batch interrupted reply hmain hreply hvalue =>
    rw [beginReply_streamer]
    exact .stays _
  | _ => exact .stays _

inductive Tallied (maxBatchSize : ℕ) (start : Threads α β) :
    List (Threads α β × Threads α β) → Threads α β → StreamTally → Prop
  | refl : Tallied maxBatchSize start [] start ⟨0, 0, 0, false⟩
  | tail {steps : List (Threads α β × Threads α β)} {s s' : Threads α β} {tally : StreamTally}
      {label : StreamLabel} (hrun : Tallied maxBatchSize start steps s tally)
      (hstep : Step maxBatchSize s label s') :
      Tallied maxBatchSize start ((s, s') :: steps) s' (tally.after s.streamer s'.streamer)

def NoFault (steps : List (Threads α β × Threads α β)) : Prop :=
  ∀ p ∈ steps, Faultless p.1.currentIds p.1.streamer p.2.streamer

theorem Tallied.running {start : Threads α β} (hstart : start.streamer = .waiting)
    {steps : List (Threads α β × Threads α β)} {tally : StreamTally}
    (h : Tallied maxBatchSize start steps s tally) :
    (NoFault steps → Running s.streamer tally) ∧
      (¬ NoFault steps → StreamFailed s.streamer tally) := by
  induction h with
  | refl =>
    rw [hstart]
    refine ⟨fun _ => ⟨⟨nofun, rfl, rfl⟩, nofun⟩, fun hfault => absurd ?_ hfault⟩
    intro p hp
    cases hp
  | @tail steps s s' tally label hrun hstep ih =>
    have hmove := hstep.streamMove
    have hcons : NoFault ((s, s') :: steps) ↔
        Faultless s.currentIds s.streamer s'.streamer ∧ NoFault steps := List.forall_mem_cons
    rw [hcons]
    by_cases hfault : NoFault steps
    · have hnext := (ih.1 hfault).move hmove
      exact ⟨fun hboth => hnext.1 hboth.1, fun hnot => hnext.2 fun hstep => hnot ⟨hstep, hfault⟩⟩
    · exact ⟨fun hboth => absurd hboth.2 hfault, fun _ => (ih.2 hfault).move hmove⟩

theorem keepsStreaming_iff (warmup : List StreamEvent)
    {steps : List (Threads α β × Threads α β)} {tally : StreamTally}
    (h : Tallied maxBatchSize (initial warmup) steps s tally) :
    KeepsStreaming s.streamer tally ↔ NoFault steps := by
  obtain ⟨hrunning, hfailed⟩ := h.running rfl
  constructor
  · intro hkeeps
    by_contra hfault
    exact (hfailed hfault).not_keeps hkeeps
  · exact fun hfault => (hrunning hfault).keeps

theorem keepsStreaming_iff_oneEvent : ∃ (s : Threads Bytes Bytes) (tally : StreamTally),
    s.wire = oneEventFrame ∧ tally = ⟨1, 1, 1, false⟩ ∧ KeepsStreaming s.streamer tally := by
  have hinitial : Tallied 1 (initial []) [] (initial [] : Threads Bytes Bytes) _ := .refl
  have hreceiving := hinitial.tail (.warmupEnds rfl)
  have hforwarding := hreceiving.tail (.receive oneEvent rfl)
  have hemitting := hforwarding.tail (.acquire oneEvent ([], 0) [] 0 rfl rfl)
  have hput := hemitting.tail (.put oneEvent ([], 0) [] rfl)
  have htaken := hput.tail (.streamGet ([], 0) [] rfl rfl)
  have hsending := htaken.tail (.streamBuild ([], 0) oneEventFrame rfl rfl)
  have hwritten := hsending.tail (.streamWrite oneEventFrame [] rfl)
  have hsent := hwritten.tail (.streamSent rfl)
  have hreleased := hsent.tail (.streamRelease rfl)
  refine ⟨_, _, rfl, rfl, (keepsStreaming_iff [] hreleased).mpr ?_⟩
  have hwell : WellFormedEvent [[0, 0, 0, 7]] ([], 0) :=
    (eventFrame_isSome _ _).mp (Option.isSome_iff_exists.mpr ⟨oneEventFrame, rfl⟩)
  simp only [NoFault, List.forall_mem_cons, List.not_mem_nil, false_implies, implies_true, and_true]
  refine ⟨⟨nofun, nofun⟩, ⟨nofun, nofun⟩, ⟨nofun, nofun⟩, ⟨?_, nofun⟩, ⟨nofun, nofun⟩,
    ⟨nofun, nofun⟩, ⟨nofun, nofun⟩, ⟨nofun, nofun⟩, ⟨nofun, nofun⟩⟩
  rintro event heq -
  cases heq
  exact hwell

def badIndex : SseBatch Bytes Bytes := { oneEvent with events := [([], 1)] }

theorem streaming_ends_on_index :
    ∃ (steps : List (Threads Bytes Bytes × Threads Bytes Bytes)) (s : Threads Bytes Bytes)
      (tally : StreamTally), Tallied 1 (initial []) steps s tally ∧
      s.streamer = .dead (some ([], 1)) ∧ s.value = 0 ∧ tally = ⟨1, 0, 0, false⟩ ∧
      ¬ KeepsStreaming s.streamer tally := by
  have hinitial : Tallied 1 (initial []) [] (initial [] : Threads Bytes Bytes) _ := .refl
  have hreceiving := hinitial.tail (.warmupEnds rfl)
  have hforwarding := hreceiving.tail (.receive badIndex rfl)
  have hemitting := hforwarding.tail (.acquire badIndex ([], 1) [] 0 rfl rfl)
  have hput := hemitting.tail (.put badIndex ([], 1) [] rfl)
  have htaken := hput.tail (.streamGet ([], 1) [] rfl rfl)
  have hraised := htaken.tail (.streamRaises ([], 1) rfl rfl)
  refine ⟨_, _, _, hraised, rfl, rfl, rfl, ?_⟩
  intro hkeeps
  exact Bool.noConfusion (hkeeps.alive _ rfl)

end Threads

end Mosec
