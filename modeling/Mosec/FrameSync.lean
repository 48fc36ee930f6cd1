import Mosec.FrameAccounting

namespace Mosec.Protocol

open Wire

/-- The receive part of `Coordinator.coordinate`: the batches handed to the worker by `n` rounds
of the loop, and the socket unless the loop has been left. A timeout continues with the next
round, `struct.error` breaks, and a spinning `receive` never returns. -/
def coordinateReceives : ℕ → Socket → List PyBatch × Option Socket
  | 0, s => ([], some s)
  | n + 1, s =>
    match receive.run s with
    | .ok batch t =>
      let (batches, alive) := coordinateReceives n t
      (batch :: batches, alive)
    | .error .timeout t => coordinateReceives n t
    | .error .structError _ => ([], none)
    | .error .spin _ => ([], none)

/-- The batches handed over are the first ones sent, and while the loop lives the stream still
holds every byte of the others. -/
def Synchronised (n : ℕ) (frames : List (List Item)) (s : Socket) : Prop :=
  (coordinateReceives n s).1 <+: frames.map pyBatch ∧
    ∀ t, (coordinateReceives n s).2 = some t →
      t.stream = (frames.drop (coordinateReceives n s).1.length).flatMap sendMessage

def ItemsCut : List Item → Schedule → Schedule → Prop
  | [], _, _ => False
  | item :: items, headers, payloads =>
    Full lengthTaskId (headers 0) ∧ Full lengthTaskState (headers 1) ∧
      ((headers 2 ≠ .timeout ∧ ¬ Full lengthTaskBodyLen (headers 2)) ∨
        (Full lengthTaskBodyLen (headers 2) ∧ ∃ here,
          PayloadAnswered here item.data.length payloads ∧
          ItemsCut items (headers.drop 3) (payloads.drop here)))

def FrameCut (items : List Item) (s : Socket) : Prop :=
  Full lengthTaskFlag (s.recvs 0) ∧
    ((s.recvs 1 ≠ .timeout ∧ ¬ Full lengthTaskBatch (s.recvs 1)) ∨
      (Full lengthTaskBatch (s.recvs 1) ∧ ItemsCut items (s.recvs.drop 2) s.recvIntos))

def RaisesStructError (_ : List Item) (s : Socket) : Prop :=
  ∃ t, receive.run s = .error .structError t

def InStep (cut : List Item → Socket → Prop) : ℕ → List (List Item) → Socket → Prop
  | 0, _, _ => True
  | _ + 1, [], _ => True
  | n + 1, items :: frames, s =>
    (s.recvs 0 = .timeout ∧ InStep cut n (items :: frames) { s with recvs := s.recvs.drop 1 }) ∨
    (∃ calls, FrameAnswered items s.recvs s.recvIntos calls ∧
      InStep cut n frames
        { s with
          stream := frames.flatMap sendMessage
          recvs := s.recvs.drop (2 + 3 * items.length)
          recvIntos := s.recvIntos.drop calls }) ∨
    cut items s

theorem sendMessage_ne_nil (items : List Item) : sendMessage items ≠ [] := by
  intro h
  have := congrArg List.length h
  rw [sendMessage_length, List.length_nil] at this
  omega

theorem receive_timeout {s : Socket} (hopen : s.closed = false)
    (h : s.stream = [] ∨ s.recvs 0 = .timeout) :
    receive.run s = .error .timeout { s with recvs := s.recvs.drop 1 } := by
  apply bind_error
  change answer _ _ _ = _
  unfold answer
  rcases h with h | h
  · simp [h, hopen]
  · by_cases hempty : s.stream = [] <;> simp [h, hempty, hopen]

theorem recv_short {n : ℕ} {s : Socket} (hd : s.recvs 0 ≠ .timeout) (hshort : ¬ Full n (s.recvs 0))
    (hs : s.stream ≠ []) :
    ∃ bytes t, (recv n).run s = .ok bytes t ∧ bytes.length < n := by
  refine ⟨s.stream.take (min n (s.recvs 0).amount),
    { s with stream := s.stream.drop (min n (s.recvs 0).amount), recvs := s.recvs.drop 1 }, ?_, ?_⟩
  · change answer _ _ _ = _
    rw [answer, if_neg hs, if_neg hd]
  · simp only [Full] at hshort
    rw [List.length_take]
    omega

theorem unpack_short {width : ℕ} {bytes : Bytes} (s : Socket) (h : bytes.length < width) :
    (unpack width bytes).run s = .error .structError s := by
  rw [unpack, if_neg (by omega)]
  rfl

theorem receiveItems_cut {items : List Item} {s : Socket} {rest : Bytes}
    (hc : ItemsCut items s.recvs s.recvIntos) (hsize : ∀ item ∈ items, item.data.length < 2 ^ 32)
    (hs : s.stream = items.flatMap itemBytes ++ rest) :
    ∃ t, (receiveItems items.length).run s = .error .structError t := by
  induction items generalizing s with
  | nil => exact hc.elim
  | cons item items ih =>
    obtain ⟨hid, hstate, hc⟩ := hc
    have hlen : (UInt32.ofNat item.data.length).toNat = item.data.length :=
      UInt32.toNat_ofNat_of_lt' (hsize item (by simp))
    simp only [List.flatMap_cons, itemBytes, List.append_assoc] at hs
    rw [List.length_cons, receiveItems]
    rw [bind_ok (recv_full (by decide) hid hs (putU32_length _))]
    rw [bind_ok (recv_full (by decide) hstate rfl (putU16_length _))]
    rcases hc with ⟨htimeout, hshort⟩ | ⟨hlength, here, hpayload, hrest⟩
    · let t : Socket := ⟨putU32 (UInt32.ofNat item.data.length) ++
        (item.data ++ (items.flatMap itemBytes ++ rest)), s.closed, s.recvs.drop 2, s.recvIntos⟩
      have ht : t.stream ≠ [] := append_ne_nil_of_length (by rw [putU32_length]; decide)
      obtain ⟨bytes, u, hread, hlt⟩ := recv_short (s := t) htimeout hshort ht
      simp only [Schedule.drop_drop]
      rw [bind_ok hread, bind_error (unpack_short u hlt)]
      exact ⟨u, rfl⟩
    · have hdecode :
          BigEndian.decode (putU32 (UInt32.ofNat item.data.length)) = item.data.length := by
        rw [putU32, hlen, BigEndian.decode_encode_of_lt]
        exact hsize item (by simp)
      rw [bind_ok (recv_full (by decide) hlength rfl (putU32_length _))]
      rw [bind_ok (unpack_ok _ (putU32_length _)), hdecode, recvAll]
      simp only [Schedule.drop_drop] at hrest ⊢
      let t : Socket := ⟨item.data ++ (items.flatMap itemBytes ++ rest), s.closed, s.recvs.drop 3, s.recvIntos⟩
      have hdata := recvAllLoop_answered (s := t) hpayload rfl rfl le_rfl
      let u : Socket := ⟨items.flatMap itemBytes ++ rest, s.closed, s.recvs.drop 3, s.recvIntos.drop here⟩
      obtain ⟨v, htail⟩ := ih (s := u) hrest (fun i hi => hsize i (List.mem_cons_of_mem _ hi)) rfl
      rw [bind_ok hdata, bind_ok (unpack_ok _ (putU16_length _)), bind_error htail]
      exact ⟨v, rfl⟩

theorem frameCut_raises {items : List Item} {s : Socket} {rest : Bytes} (hsize : WellSized items)
    (hs : s.stream = sendMessage items ++ rest) (hc : FrameCut items s) :
    RaisesStructError items s := by
  obtain ⟨hflag, hc⟩ := hc
  have hlen : (UInt16.ofNat items.length).toNat = items.length :=
    UInt16.toNat_ofNat_of_lt' hsize.1
  simp only [sendMessage, List.append_assoc] at hs
  rw [RaisesStructError, receive, bind_ok (recv_full (by decide) hflag hs (putU16_length _))]
  rcases hc with ⟨htimeout, hshort⟩ | ⟨hbatch, hitems⟩
  · let t : Socket := ⟨putU16 (UInt16.ofNat items.length) ++ (items.flatMap itemBytes ++ rest),
      s.closed, s.recvs.drop 1, s.recvIntos⟩
    have ht : t.stream ≠ [] := append_ne_nil_of_length (by rw [putU16_length]; decide)
    obtain ⟨bytes, u, hread, hlt⟩ := recv_short (s := t) htimeout hshort ht
    rw [bind_ok hread, bind_error (unpack_short u hlt)]
    exact ⟨u, rfl⟩
  · have hdecode : BigEndian.decode (putU16 (UInt16.ofNat items.length)) = items.length := by
      rw [putU16, hlen, BigEndian.decode_encode_of_lt hsize.1]
    rw [bind_ok (recv_full (by decide) hbatch rfl (putU16_length _))]
    rw [bind_ok (unpack_ok _ (putU16_length _)), hdecode]
    simp only [Schedule.drop_drop]
    let t : Socket := ⟨items.flatMap itemBytes ++ rest, s.closed, s.recvs.drop 2, s.recvIntos⟩
    obtain ⟨u, hcut⟩ := receiveItems_cut (s := t) hitems hsize.2 rfl
    rw [bind_error hcut]
    exact ⟨u, rfl⟩

structure Written (frames : List (List Item)) (s : Socket) : Prop where
  sized : ∀ items ∈ frames, WellSized items
  opened : s.closed = false
  stream : s.stream = frames.flatMap sendMessage

theorem InStep.mono {cut cut' : List Item → Socket → Prop} {n : ℕ} {frames : List (List Item)}
    {s : Socket} (hf : Written frames s) (h : InStep cut n frames s)
    (hcut : ∀ items rest t, WellSized items → t.stream = sendMessage items ++ rest →
      cut items t → cut' items t) : InStep cut' n frames s := by
  induction n generalizing frames s with
  | zero => trivial
  | succ n ih =>
    cases frames with
    | nil => trivial
    | cons items frames =>
      rcases h with ⟨ht, h⟩ | ⟨calls, hc, h⟩ | h
      · exact .inl ⟨ht, ih ⟨hf.sized, hf.opened, hf.stream⟩ h⟩
      · exact .inr (.inl ⟨calls, hc,
          ih ⟨fun i hi => hf.sized i (List.mem_cons_of_mem _ hi), hf.opened, rfl⟩ h⟩)
      · exact .inr (.inr (hcut items _ s (hf.sized items (by simp)) hf.stream h))

theorem synchronised_of_inStep {n : ℕ} {frames : List (List Item)} {s : Socket}
    (hf : Written frames s) (h : InStep RaisesStructError n frames s) : Synchronised n frames s := by
  induction n generalizing frames s with
  | zero =>
    refine ⟨List.nil_prefix, fun t ht => ?_⟩
    cases ht
    exact hf.stream
  | succ n ih =>
    unfold Synchronised
    cases frames with
    | nil =>
      have hread := receive_timeout hf.opened (.inl hf.stream)
      simp only [coordinateReceives, hread]
      exact ih ⟨hf.sized, hf.opened, hf.stream⟩ (by cases n <;> trivial)
    | cons items frames =>
      rcases h with ⟨ht, h⟩ | ⟨calls, hc, h⟩ | ⟨t, hread⟩
      · have hread := receive_timeout hf.opened (.inr ht)
        simp only [coordinateReceives, hread]
        exact ih ⟨hf.sized, hf.opened, hf.stream⟩ h
      · have hread := receive_answered hc (hf.sized items (by simp)) hf.stream
        let t : Socket := ⟨frames.flatMap sendMessage, s.closed,
          s.recvs.drop (2 + 3 * items.length), s.recvIntos.drop calls⟩
        have ht : Written frames t :=
          ⟨fun i hi => hf.sized i (List.mem_cons_of_mem _ hi), hf.opened, rfl⟩
        obtain ⟨hfirst, halive⟩ := ih ht h
        simp only [coordinateReceives, hread, List.map_cons, List.length_cons, List.drop_succ_cons]
        exact ⟨List.cons_prefix_cons.mpr ⟨rfl, hfirst⟩, halive⟩
      · simp only [coordinateReceives, hread]
        exact ⟨List.nil_prefix, by simp⟩

theorem bind_eq_error {α β : Type} {x : Recv α} {f : α → Recv β} {s t : Socket} {e : RecvError} :
    (x >>= f).run s = .error e t ↔
      x.run s = .error e t ∨ ∃ a u, x.run s = .ok a u ∧ (f a).run u = .error e t := by
  rw [EStateM.run_bind]
  cases h : x.run s with
  | ok a u => simp
  | error e u => simp

def NeverSpins {α : Type} (x : Recv α) : Prop :=
  ∀ s t : Socket, s.closed = false → x.run s ≠ .error .spin t

theorem NeverSpins.bind {α β : Type} {x : Recv α} {f : α → Recv β} (hx : NeverSpins x)
    (hc : Consumes x) (hf : ∀ a, NeverSpins (f a)) : NeverSpins (x >>= f) := by
  intro s t hs h
  rcases bind_eq_error.mp h with h | ⟨a, u, hu, h⟩
  · exact hx s t hs h
  · have hopen := (hc s hs).1
    rw [hu] at hopen
    exact hf a u t hopen h

theorem recv_neverSpins (n : ℕ) : NeverSpins (recv n) := fun s t hs h => by
  have := (recv_error hs h).1
  cases this

theorem unpack_neverSpins (width : ℕ) (bytes : Bytes) : NeverSpins (unpack width bytes) := by
  intro s t _ h
  unfold unpack at h
  split_ifs at h <;> cases h

theorem recvInto_neverSpins (n : ℕ) : NeverSpins (recvInto n) := by
  intro s t hs h
  change answer n (s.recvIntos 0) { s with recvIntos := s.recvIntos.drop 1 } = _ at h
  unfold answer at h
  simp only [hs, Bool.false_eq_true, ↓reduceIte] at h
  split_ifs at h <;> cases h

theorem recvAllLoop_neverSpins (calls length : ℕ) (h : length ≤ calls) :
    NeverSpins (recvAllLoop calls length) := by
  induction calls generalizing length with
  | zero =>
    obtain rfl : length = 0 := by omega
    intro s t _ h
    cases h
  | succ calls ih =>
    cases length with
    | zero => intro s t _ h; cases h
    | succ length =>
      intro s t hs h
      rcases bind_eq_error.mp h with h | ⟨packet, u, hread, h⟩
      · exact recvInto_neverSpins _ s t hs h
      · obtain ⟨htimeout, hpacket, hu, hne⟩ := recvInto_ok hs hread
        have hpos := Delivery.amount_pos htimeout
        have hlen : 0 < s.stream.length := List.length_pos_iff.mpr hne
        have hplen : 0 < packet.length := by rw [hpacket, List.length_take]; omega
        have hopen : u.closed = false := by rw [hu]; exact hs
        rcases bind_eq_error.mp h with h | ⟨buffer, v, -, h⟩
        · exact ih (length + 1 - packet.length) (by omega) u t hopen h
        · cases h

theorem receiveItems_neverSpins (batchSize : ℕ) : NeverSpins (receiveItems batchSize) := by
  induction batchSize with
  | zero => intro s t _ h; cases h
  | succ batchSize ih =>
    exact .bind (recv_neverSpins _) (recv_consumes _) fun _ =>
      .bind (recv_neverSpins _) (recv_consumes _) fun _ =>
      .bind (recv_neverSpins _) (recv_consumes _) fun _ =>
      .bind (unpack_neverSpins _ _) (unpack_consumes _ _) fun _ =>
      .bind (recvAllLoop_neverSpins _ _ le_rfl) (recvAllLoop_consumes _ _) fun _ =>
      .bind (unpack_neverSpins _ _) (unpack_consumes _ _) fun _ =>
      .bind ih (receiveItems_consumes _) fun _ => fun s t _ h => by cases h

theorem receive_neverSpins : NeverSpins receive :=
  .bind (recv_neverSpins _) (recv_consumes _) fun _ =>
    .bind (recv_neverSpins _) (recv_consumes _) fun _ =>
    .bind (unpack_neverSpins _ _) (unpack_consumes _ _) fun _ =>
    .bind (receiveItems_neverSpins _) (receiveItems_consumes _) fun _ => fun s t _ h => by cases h

theorem inStep_of_synchronised {n : ℕ} {frames : List (List Item)} {s : Socket}
    (hf : Written frames s) (h : ∀ m, Synchronised m frames s) :
    InStep RaisesStructError n frames s := by
  induction n generalizing frames s with
  | zero => trivial
  | succ n ih =>
    cases frames with
    | nil => trivial
    | cons items frames =>
      cases hread : receive.run s with
      | ok batch t =>
        have hone := h 1
        simp only [Synchronised, coordinateReceives, hread, List.map_cons, List.length_singleton,
          List.cons_prefix_cons, List.nil_prefix, and_true, List.drop_succ_cons, List.drop_zero] at hone
        obtain ⟨rfl, hstream⟩ := hone
        have hstream := hstream t rfl
        have hcount : s.stream.length = (sendMessage items).length + t.stream.length := by
          rw [hf.stream, hstream, List.flatMap_cons, List.length_append]
        obtain ⟨calls, hcalls, he⟩ := receive_ok hf.opened hread hcount
        rw [hstream] at he
        refine .inr (.inl ⟨calls, hcalls, ?_⟩)
        rw [← he]
        refine ih ⟨fun i hi => hf.sized i (List.mem_cons_of_mem _ hi), ?_, hstream⟩ (fun m => ?_)
        · rw [he]; exact hf.opened
        · have hm := h (m + 1)
          simp only [Synchronised, coordinateReceives, hread, List.map_cons, List.length_cons,
            List.drop_succ_cons, List.cons_prefix_cons, true_and] at hm
          exact hm
      | error e t =>
        cases e with
        | timeout =>
          have hkept : t.stream = s.stream := by
            have hone := h 1
            simp only [Synchronised, coordinateReceives, hread, List.length_nil, List.drop_zero] at hone
            rw [hone.2 t rfl, hf.stream]
          obtain ⟨-, he, ht⟩ := receive_error hf.opened hread (by rw [hkept])
          have hne : s.stream ≠ [] := by
            rw [hf.stream, List.flatMap_cons]
            exact append_ne_nil_of_length (List.length_pos_iff.mpr (sendMessage_ne_nil items))
          refine .inl ⟨ht hne, ?_⟩
          rw [← he]
          refine ih ⟨hf.sized, by rw [he]; exact hf.opened, hkept.trans hf.stream⟩ (fun m => ?_)
          have hm := h (m + 1)
          simp only [Synchronised, coordinateReceives, hread] at hm
          exact hm
        | structError => exact .inr (.inr ⟨t, hread⟩)
        | spin => exact absurd hread (receive_neverSpins s t hf.opened)

theorem receive_loop_synchronised (frames : List (List Item)) (s : Socket)
    (hf : Written frames s) :
    ((∀ n, InStep FrameCut n frames s) → ∀ n, Synchronised n frames s) ∧
      ((∀ n, Synchronised n frames s) ↔ ∀ n, InStep RaisesStructError n frames s) := by
  refine ⟨fun h n => ?_, fun h n => inStep_of_synchronised hf h,
    fun h n => synchronised_of_inStep hf (h n)⟩
  exact synchronised_of_inStep hf
    ((h n).mono hf fun _ _ _ hsize hs hc => frameCut_raises hsize hs hc)

theorem receive_loop_synchronised_late :
    let frames : List (List Item) := [[⟨7, 3, [42]⟩], []]
    let s : Socket := ⟨frames.flatMap sendMessage, false,
      fun i => if i = 5 then .timeout else .upTo 4, fun _ => .upTo 1⟩
    Synchronised 3 frames s := by
  intro frames s
  have hsized : ∀ items ∈ frames, WellSized items := by
    simp only [frames, List.forall_mem_cons, List.not_mem_nil, false_implies, implies_true, and_true]
    constructor <;> constructor <;> simp
  have hfirst : FrameAnswered [⟨7, 3, [42]⟩] s.recvs s.recvIntos 1 :=
    ⟨by decide, by decide, by decide, by decide, by decide, 1, 0, rfl,
      ⟨by decide, by decide, rfl⟩, rfl⟩
  have hsecond : FrameAnswered [] ((s.recvs.drop 5).drop 1) (s.recvIntos.drop 1) 0 :=
    ⟨by decide, by decide, rfl⟩
  refine (receive_loop_synchronised frames s ⟨hsized, rfl, rfl⟩).1 (fun n => ?_) 3
  rcases n with _ | _ | _ | n
  · trivial
  · exact .inr (.inl ⟨1, hfirst, trivial⟩)
  · exact .inr (.inl ⟨1, hfirst, .inl ⟨rfl, trivial⟩⟩)
  · exact .inr (.inl ⟨1, hfirst, .inl ⟨rfl, .inr (.inl ⟨0, hsecond, by cases n <;> trivial⟩)⟩⟩)

theorem receive_loop_misparses :
    let frames : List (List Item) := [[⟨7, 3, [42]⟩]]
    let short : Socket := ⟨frames.flatMap sendMessage, false,
      fun i => if i = 0 then .upTo 1 else .upTo 4, fun _ => .upTo 1⟩
    let late : Socket := ⟨frames.flatMap sendMessage, false,
      fun i => if i = 1 then .timeout else .upTo 4, fun _ => .upTo 1⟩
    (coordinateReceives 1 short).1 = [⟨[0], []⟩] ∧
      ¬ (coordinateReceives 1 short).1 <+: frames.map pyBatch ∧
      (coordinateReceives 2 late).1 = [⟨[0, 1], []⟩] ∧
      ¬ (coordinateReceives 2 late).1 <+: frames.map pyBatch := by
  refine ⟨rfl, ?_, rfl, ?_⟩ <;> decide

end Mosec.Protocol
