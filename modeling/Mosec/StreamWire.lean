import Mosec.FrameCut
import Mosec.Stages
import Mosec.StreamOrder

namespace Mosec

open Protocol (PyItem HTTPStatusCode)
open Communicate (Call Turn finish eventCalls atomically)

variable {α β : Type}

theorem Protocol.frame_of_sendItems {flag : HTTPStatusCode} {items : List PyItem} {bytes : Bytes}
    (hnum : items.length < 2 ^ 16) (hsized : ∀ item ∈ items, item.WellSized)
    (h : sendItems flag items = .ok bytes) : ∃ frame : Frame, frame.bytes = bytes ∧
      frame.code = flag.taskCode ∧ frame.items = items.map PyItem.toItem := by
  have hsizes : ∀ item ∈ items.map PyItem.toItem, item.data.length < 2 ^ 32 := by
    intro item hitem
    obtain ⟨sent, hsent, rfl⟩ := List.mem_map.mp hitem
    exact (hsized sent hsent).2.2
  refine ⟨⟨UInt16.ofNat flag.value, items.map PyItem.toItem, by simpa using hnum, hsizes⟩, ?_,
    codeOfFlag_value flag, rfl⟩
  rw [sendItems_ok flag items hnum hsized] at h
  exact Except.ok.inj h

theorem Protocol.send_length {flag : ℕ} {ids payloads : List Bytes} {states : List ℕ}
    {bytes : Bytes} (h : send flag ids states payloads = .ok bytes) :
    payloads.length = ids.length := by
  obtain ⟨flagBytes, -, h⟩ := Attempts.bind_eq_ok.mp h
  by_contra hne
  rw [if_pos (Ne.symm hne)] at h
  cases h

def eventItem (ids : List Bytes) (event : StreamEvent) : Option Item := do
  let payload ← event.1.encode
  let id ← pyIndex ids event.2
  return ⟨Wire.u32FromBeBytes id, 0, payload⟩

theorem pyIndex_mem {ids : List Bytes} {index : ℤ} {id : Bytes} (h : pyIndex ids index = some id) :
    id ∈ ids := by
  unfold pyIndex at h
  split at h
  · exact List.mem_of_getElem? h
  · split at h
    · exact List.mem_of_getElem? h
    · cases h

theorem frame_of_event {ids : List Bytes} {event : StreamEvent} {bytes : Bytes}
    (hids : ∀ id ∈ ids, id.length = 4) (h : eventFrame ids event = some bytes) :
    ∃ frame : Frame, frame.bytes = bytes ∧ frame.isEvent = true ∧
      frame.items = (eventItem ids event).toList := by
  obtain ⟨payload, hpayload, h⟩ := Option.bind_eq_some_iff.mp h
  obtain ⟨id, hid, h⟩ := Option.bind_eq_some_iff.mp h
  have hsend : Protocol.sendItems .STREAM_EVENT [⟨id, 0, payload⟩] = .ok bytes :=
    Coordinator.toOption_eq_some h
  have hsize : payload.length < 2 ^ 32 :=
    @Protocol.send_sized .STREAM_EVENT [⟨id, 0, payload⟩] _ _ rfl hsend payload (by simp)
  obtain ⟨frame, hbytes, hcode, hitems⟩ := Protocol.frame_of_sendItems (by simp)
    (by simpa [PyItem.WellSized] using ⟨hids id (pyIndex_mem hid), hsize⟩) hsend
  refine ⟨frame, hbytes, decide_eq_true hcode, ?_⟩
  rw [hitems, eventItem, hpayload]
  simp only [Option.bind_eq_bind, Option.bind_some, hid]
  rfl

namespace SseBatch

def Sent (batch : SseBatch α β) : Prop :=
  ∃ items : List Item, Protocol.WellSized items ∧ batch.items = items.map Protocol.pyItem

theorem Sent.ids {batch : SseBatch α β} (h : batch.Sent) : ∀ id ∈ batch.ids, id.length = 4 := by
  obtain ⟨items, -, hitems⟩ := h
  intro id hid
  rw [SseBatch.ids, hitems, List.map_map] at hid
  obtain ⟨item, -, rfl⟩ := List.mem_map.mp hid
  exact Wire.putU32_length _

theorem frame_of_reply {batch : SseBatch α β} {reply : HTTPStatusCode × List Bytes}
    {bytes : Bytes} (hsent : batch.Sent) (h : batch.frame reply = some bytes) :
    ∃ frame : Frame, frame.bytes = bytes ∧ frame.code = reply.1.taskCode ∧
      frame.items = (Protocol.replyItems batch.items reply.2).map PyItem.toItem := by
  obtain ⟨items, hsized, hitems⟩ := hsent
  have hsend := Coordinator.toOption_eq_some h
  have hlength : reply.2.length = batch.items.length := by
    rw [Protocol.send_length hsend, SseBatch.ids, List.length_map]
  have hpayloads := Protocol.send_sized hlength hsend
  obtain ⟨hnum, hwell⟩ := Protocol.replyItems_sized hsized hpayloads
  rw [← hitems] at hnum hwell
  exact Protocol.frame_of_sendItems hnum hwell
    ((Protocol.send_replyItems hlength).trans hsend)

end SseBatch

namespace Record

/-- What the server is to do about a batch: each event goes to the task it is for, and the reply
updates the tasks of the batch. -/
def handled (maxBatchSize : ℕ) (r : Record α β) : List Call :=
  .getBatch ::
    r.calls.map (fun event => .sendStreamEvent (eventItem r.batch.ids event).toList) ++
    match r.batch.reply maxBatchSize r.interrupted with
    | none => []
    | some (status, payloads) =>
      finish status.taskCode ((Protocol.replyItems r.batch.items payloads).map PyItem.toItem)

theorem frames_of_calls {ids : List Bytes} (hids : ∀ id ∈ ids, id.length = 4)
    {calls : List StreamEvent} (h : ∀ event ∈ calls, (eventFrame ids event).isSome) :
    ∃ events : List Frame, calls.map (eventFrame ids) = events.map (fun e => some e.bytes) ∧
      (∀ e ∈ events, e.isEvent = true) ∧
      eventCalls events =
        calls.map fun event => Call.sendStreamEvent (eventItem ids event).toList := by
  induction calls with
  | nil => exact ⟨[], rfl, by simp, rfl⟩
  | cons event calls ih =>
    rw [List.forall_mem_cons] at h
    obtain ⟨bytes, hbytes⟩ := Option.isSome_iff_exists.mp h.1
    obtain ⟨frame, rfl, hevent, hitems⟩ := frame_of_event hids hbytes
    obtain ⟨events, hframes, hevents, hcalls⟩ := ih h.2
    refine ⟨frame :: events, ?_, List.forall_mem_cons.mpr ⟨hevent, hevents⟩, ?_⟩
    · rw [List.map_cons, List.map_cons, hbytes, hframes]
    · rw [List.map_cons, ← hcalls, eventCalls, eventCalls, List.map_cons, hitems]

theorem frames_of_due {maxBatchSize : ℕ} {r : Record α β} {frame : Bytes} (hsent : r.batch.Sent)
    (hcode : ∀ reply, r.batch.reply maxBatchSize r.interrupted = some reply →
      reply.1 ≠ .STREAM_EVENT)
    (hframe : r.reply = some frame) (hanswered : Threads.Answered maxBatchSize r)
    (hdue : ∀ bytes ∈ r.due, bytes.isSome) :
    ∃ (events : List Frame) (reply : Frame),
      r.due = (events ++ [reply]).map (fun f => some f.bytes) ∧
      (∀ e ∈ events, e.isEvent = true) ∧ reply.isEvent = false ∧
      r.handled maxBatchSize = .getBatch :: eventCalls events ++ finish reply.code reply.items := by
  obtain ⟨hanswer, -⟩ := hanswered frame hframe
  obtain ⟨reply, hreply, hbytes⟩ := Option.bind_eq_some_iff.mp hanswer
  obtain ⟨last, rfl, hlast, hitems⟩ := SseBatch.frame_of_reply hsent hbytes
  have hcalls : ∀ event ∈ r.calls, (eventFrame r.batch.ids event).isSome := fun event hevent =>
    hdue _ (List.mem_append_left _ (List.mem_map_of_mem hevent))
  obtain ⟨events, hframes, hevents, hcalls⟩ := frames_of_calls hsent.ids hcalls
  refine ⟨events, last, ?_, hevents, ?_, ?_⟩
  · rw [due, hframes, hframe, List.map_append]
    rfl
  · apply decide_eq_false
    rw [hlast]
    intro hevent
    apply hcode reply hreply
    generalize reply.1 = status at hevent
    cases status <;> first | rfl | cases hevent
  · rw [handled, hreply, hcalls, hlast, hitems]

end Record

theorem Communicate.atomically_written {events : List Frame} {reply : Frame} {rest : List Frame}
    (turns : List Turn) (hevents : ∀ e ∈ events, e.isEvent = true) (hreply : reply.isEvent = false) :
    atomically (.written :: turns) (events ++ reply :: rest) =
      (atomically turns rest).after
        (.getBatch :: eventCalls events ++ finish reply.code reply.items) := by
  have hneg : ¬ reply.isEvent = true := by simp [hreply]
  have htake : (events ++ reply :: rest).takeWhile Frame.isEvent = events := by
    rw [List.takeWhile_append_of_pos hevents, List.takeWhile_cons_of_neg hneg, List.append_nil]
  have hdrop : (events ++ reply :: rest).dropWhile Frame.isEvent = reply :: rest := by
    rw [List.dropWhile_append_of_pos hevents, List.dropWhile_cons_of_neg hneg]
  rw [atomically, htake, hdrop]

namespace Threads

theorem atomically_of_due {maxBatchSize : ℕ} {records : List (Record α β)}
    (hsent : ∀ r ∈ records, r.batch.Sent)
    (hcode : ∀ r ∈ records, ∀ reply, r.batch.reply maxBatchSize r.interrupted = some reply →
      reply.1 ≠ .STREAM_EVENT)
    (hreply : ∀ r ∈ records, r.reply.isSome) (hanswered : ∀ r ∈ records, Answered maxBatchSize r)
    (hdue : ∀ r ∈ records, ∀ bytes ∈ r.due, bytes.isSome) :
    ∃ frames : List Frame, records.flatMap Record.due = frames.map (fun f => some f.bytes) ∧
      atomically (List.replicate records.length .written) frames =
        ⟨records.flatMap (Record.handled maxBatchSize), .waiting⟩ ∧
      ∀ frame ∈ frames.getLast?, frame.isEvent = false := by
  induction records with
  | nil => exact ⟨[], rfl, rfl, by simp⟩
  | cons r records ih =>
    rw [List.forall_mem_cons] at hsent hcode hreply hanswered hdue
    obtain ⟨frame, hframe⟩ := Option.isSome_iff_exists.mp hreply.1
    obtain ⟨events, reply, hr, hevents, hlast, hhandled⟩ :=
      Record.frames_of_due hsent.1 hcode.1 hframe hanswered.1 hdue.1
    obtain ⟨frames, hframes, hcalls, hrest⟩ :=
      ih hsent.2 hcode.2 hreply.2 hanswered.2 hdue.2
    refine ⟨events ++ reply :: frames, ?_, ?_, ?_⟩
    · rw [List.flatMap_cons, hr, hframes, ← List.map_append, List.append_assoc]
      rfl
    · rw [List.length_cons, List.replicate_succ, Communicate.atomically_written _ hevents hlast,
        hcalls, List.flatMap_cons, hhandled]
      rfl
    · rw [List.getLast?_append_cons, List.getLast?_cons]
      intro frame hmem
      cases hlast' : frames.getLast? with
      | none =>
        rw [hlast'] at hmem
        cases hmem
        exact hlast
      | some frame' =>
        rw [hlast'] at hmem
        cases hmem
        exact hrest _ hlast'

/-- What the two threads of a worker write is what the loop of the server does: it takes every
event for the task that it is for, in the order of the calls and before the reply. -/
theorem stream_round_trip (maxBatchSize : ℕ) {s : Threads α β}
    (h : Runs maxBatchSize Undisturbed (initial []) s) (hmain : s.main = .receiving)
    (hsent : ∀ r ∈ s.log, r.batch.Sent)
    (hcode : ∀ r ∈ s.log, ∀ reply, r.batch.reply maxBatchSize r.interrupted = some reply →
      reply.1 ≠ .STREAM_EVENT) (code : TaskCode) :
    Communicate.communicate code (List.replicate s.log.length .written) s.wire =
        ⟨s.log.reverse.flatMap (Record.handled maxBatchSize), .waiting⟩ ∧
      ∀ r ∈ s.log, r.interrupted = none → r.calls = r.batch.script maxBatchSize := by
  have horder := (InOrder.initial maxBatchSize).runs h
  obtain ⟨written, hwire, hdue⟩ := horder.frames
  have hfits := horder.fits
  rw [hmain] at hfits
  obtain ⟨hqueue, hstreamer, hreply⟩ := hfits
  obtain ⟨hpending, hleft⟩ := StreamerAt.pending_of_claims hstreamer
  have hunsent : s.unsent = [] := by
    rw [unsent, hmain, hleft]
    rfl
  rw [pending, hqueue, hpending, List.append_nil, List.map_nil, List.append_nil] at hdue
  rw [hunsent, List.append_nil] at hwire
  have hsome : ∀ r ∈ s.log.reverse, ∀ bytes ∈ r.due, bytes.isSome := by
    intro r hr bytes hbytes
    have hmem : bytes ∈ due s.log := List.mem_flatMap.mpr ⟨r, hr, hbytes⟩
    rw [hdue] at hmem
    obtain ⟨frame, -, rfl⟩ := List.mem_map.mp hmem
    rfl
  obtain ⟨frames, hframes, hcalls, hlast⟩ := atomically_of_due
    (fun r hr => hsent r (List.mem_reverse.mp hr)) (fun r hr => hcode r (List.mem_reverse.mp hr))
    (fun r hr => hreply r (List.mem_reverse.mp hr))
    (fun r hr => horder.answered r (List.mem_reverse.mp hr)) hsome
  constructor
  · have hbytes : s.wire = frames.flatMap Frame.bytes ++ [] := by
      have hmap : written = frames.map Frame.bytes := by
        apply List.map_injective_iff.mpr (Option.some_injective Bytes)
        rw [← hdue, List.map_map]
        exact hframes
      rw [hwire, hmap, List.append_nil, List.flatMap_def]
    have hcut : Frame.IsCut [] := ⟨Communicate.eventOne, _, List.ne_nil_of_length_pos
      Communicate.eventOne.bytes_length_pos, rfl⟩
    rw [List.length_reverse] at hcalls
    rw [hbytes, ← hcalls, Communicate.communicate_eq_iff code _ frames hcut]
    intro hevent
    obtain ⟨frame, hmem, hevent⟩ := Communicate.cutAfterEvent_last hevent
    rw [hlast frame hmem] at hevent
    cases hevent
  · intro r hr hinterrupted
    obtain ⟨frame, hframe⟩ := Option.isSome_iff_exists.mp (hreply r hr)
    exact (horder.answered r hr frame hframe).2 hinterrupted

def laterEvent : SseBatch Bytes Bytes :=
  ⟨[⟨[0, 0, 0, 7], 3, [5]⟩, ⟨[0, 0, 0, 8], 3, [6]⟩], echoing, [(.ofString "a", 1)]⟩

def laterEventFrame : Bytes := [128, 0, 0, 1, 0, 0, 0, 8, 0, 0, 0, 0, 0, 1, 97]

def laterReplyFrame : Bytes :=
  [0, 1, 0, 2, 0, 0, 0, 7, 0, 3, 0, 0, 0, 1, 5, 0, 0, 0, 8, 0, 3, 0, 0, 0, 1, 6]

theorem laterEvent_sent : laterEvent.Sent :=
  ⟨[⟨7, 3, [5]⟩, ⟨8, 3, [6]⟩], ⟨by simp, by simp⟩, by decide⟩

theorem stream_round_trip_later : ∃ s : Threads Bytes Bytes,
    Runs 2 Undisturbed (initial []) s ∧ s.wire = laterEventFrame ++ laterReplyFrame ∧
      Communicate.communicate .InternalError [.written] s.wire =
        ⟨[.getBatch, .sendStreamEvent [⟨8, 0, [97]⟩],
          .updateMultiTasks .Normal [⟨7, 3, [5]⟩, ⟨8, 3, [6]⟩], .sendTask 7, .sendTask 8],
          .waiting⟩ := by
  have hordinary : ∀ s : Threads Bytes Bytes, Undisturbed s .ordinary := fun _ => by
    simp [Undisturbed]
  have hinitial : Runs 2 Undisturbed (initial []) (initial [] : Threads Bytes Bytes) := .refl
  have hreceiving := hinitial.tail (.warmupEnds rfl) (hordinary _)
  have hforwarding := hreceiving.tail (.receive laterEvent rfl) (hordinary _)
  have hemitting := hforwarding.tail (.acquire laterEvent (.ofString "a", 1) [] 0 rfl rfl)
    (hordinary _)
  have hput := hemitting.tail (.put laterEvent (.ofString "a", 1) [] rfl) (hordinary _)
  have htaken := hput.tail (.streamGet (.ofString "a", 1) [] rfl rfl) (hordinary _)
  have hsending := htaken.tail (.streamBuild (.ofString "a", 1) laterEventFrame rfl rfl)
    (hordinary _)
  have hforwarded := hsending.tail (.forwardEnds laterEvent rfl) (hordinary _)
  have hpiece := hforwarded.tail
    (.streamWrite (laterEventFrame.take 5) (laterEventFrame.drop 5) rfl) (hordinary _)
  have hwritten := hpiece.tail (.streamWrite (laterEventFrame.drop 5) [] rfl) (hordinary _)
  have hsent := hwritten.tail (.streamSent rfl) (hordinary _)
  have hreleased := hsent.tail (.streamRelease rfl) (hordinary _)
  have hreplying := hreleased.tail
    (.acquireReply laterEvent none (.OK, [[5], [6]]) 0 rfl rfl rfl) (hordinary _)
  have hreplied := hreplying.tail (.write true laterReplyFrame [] rfl) (hordinary _)
  have hended := hreplied.tail (.sent true rfl) (hordinary _)
  have hidle := hended.tail (.release true true rfl) (hordinary _)
  have htrip := stream_round_trip 2 hidle rfl
    (List.forall_mem_singleton.mpr laterEvent_sent)
    (List.forall_mem_singleton.mpr (by rintro reply ⟨⟩; simp)) .InternalError
  exact ⟨_, hidle, rfl, htrip.1⟩

end Threads

end Mosec
