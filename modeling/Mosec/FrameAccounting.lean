import Mosec.FrameReading

namespace Mosec.Protocol

open Wire

theorem bind_eq_ok {α β : Type} {x : Recv α} {f : α → Recv β} {s t : Socket} {b : β} :
    (x >>= f).run s = .ok b t ↔ ∃ a u, x.run s = .ok a u ∧ (f a).run u = .ok b t := by
  rw [EStateM.run_bind]
  cases h : x.run s with
  | ok a u => simp
  | error e u => simp

def resultSocket {α : Type} : EStateM.Result RecvError Socket α → Socket
  | .ok _ s => s
  | .error _ s => s

def Consumes {α : Type} (x : Recv α) : Prop := ∀ s : Socket, s.closed = false →
  (resultSocket (x.run s)).closed = false ∧ (resultSocket (x.run s)).stream.length ≤ s.stream.length

theorem Consumes.pure {α : Type} (a : α) : Consumes (pure a : Recv α) := fun _ h => ⟨h, le_rfl⟩

theorem Consumes.throw {α : Type} (e : RecvError) : Consumes (throw e : Recv α) :=
  fun _ h => ⟨h, le_rfl⟩

theorem Consumes.bind {α β : Type} {x : Recv α} {f : α → Recv β} (hx : Consumes x)
    (hf : ∀ a, Consumes (f a)) : Consumes (x >>= f) := by
  intro s hs
  have h := hx s hs
  rw [EStateM.run_bind]
  cases hr : x.run s with
  | ok a u =>
    rw [hr] at h
    exact ⟨(hf a u h.1).1, (hf a u h.1).2.trans h.2⟩
  | error e u => rw [hr] at h; exact h

theorem answer_consumes (n : ℕ) (d : Delivery) (s : Socket) (hs : s.closed = false) :
    (resultSocket (answer n d s)).closed = false ∧
      (resultSocket (answer n d s)).stream.length ≤ s.stream.length := by
  unfold answer
  split_ifs <;> simp_all [resultSocket]

theorem recv_consumes (n : ℕ) : Consumes (recv n) := fun s hs =>
  answer_consumes n (s.recvs 0) { s with recvs := s.recvs.drop 1 } hs

theorem recvInto_consumes (n : ℕ) : Consumes (recvInto n) := fun s hs =>
  answer_consumes n (s.recvIntos 0) { s with recvIntos := s.recvIntos.drop 1 } hs

theorem unpack_consumes (width : ℕ) (bytes : Bytes) : Consumes (unpack width bytes) := by
  unfold unpack
  split_ifs
  · exact .pure _
  · exact .throw _

theorem recvAllLoop_consumes (calls length : ℕ) : Consumes (recvAllLoop calls length) := by
  induction calls generalizing length with
  | zero => cases length <;> simp only [recvAllLoop] <;> first | exact .pure _ | exact .throw _
  | succ calls ih =>
    cases length with
    | zero => exact .pure _
    | succ length => exact .bind (recvInto_consumes _) fun _ => .bind (ih _) fun _ => .pure _

theorem receiveItems_consumes (batchSize : ℕ) : Consumes (receiveItems batchSize) := by
  induction batchSize with
  | zero => exact .pure _
  | succ batchSize ih =>
    exact .bind (recv_consumes _) fun _ => .bind (recv_consumes _) fun _ =>
      .bind (recv_consumes _) fun _ => .bind (unpack_consumes _ _) fun _ =>
      .bind (recvAllLoop_consumes _ _) fun _ => .bind (unpack_consumes _ _) fun _ =>
      .bind ih fun _ => .pure _

theorem recv_ok {n : ℕ} {s t : Socket} {bytes : Bytes} (hopen : s.closed = false) (hn : 0 < n)
    (h : (recv n).run s = .ok bytes t) :
    s.stream.length = bytes.length + t.stream.length ∧ bytes.length ≤ n ∧ 0 < bytes.length ∧
      (bytes.length = n → Full n (s.recvs 0)) ∧
      t = { s with stream := t.stream, recvs := s.recvs.drop 1 } := by
  change answer n (s.recvs 0) { s with recvs := s.recvs.drop 1 } = _ at h
  unfold answer at h
  simp only [hopen, Bool.false_eq_true, ↓reduceIte] at h
  split_ifs at h with hempty htimeout
  cases h
  have hpos := Delivery.amount_pos htimeout
  have hlen : 0 < s.stream.length := List.length_pos_iff.mpr hempty
  simp only [List.length_take, List.length_drop, Full, hopen]
  refine ⟨by omega, by omega, by omega, by omega, trivial⟩

theorem recvInto_ok {n : ℕ} {s t : Socket} {bytes : Bytes} (hopen : s.closed = false)
    (h : (recvInto n).run s = .ok bytes t) :
    s.recvIntos 0 ≠ .timeout ∧ bytes = s.stream.take (min n (s.recvIntos 0).amount) ∧
      t = { s with
        stream := s.stream.drop (min n (s.recvIntos 0).amount)
        recvIntos := s.recvIntos.drop 1 } ∧ s.stream ≠ [] := by
  change answer n (s.recvIntos 0) { s with recvIntos := s.recvIntos.drop 1 } = _ at h
  unfold answer at h
  simp only [hopen, Bool.false_eq_true, ↓reduceIte] at h
  split_ifs at h with hempty htimeout
  cases h
  exact ⟨htimeout, rfl, by rw [hopen], hempty⟩

theorem recvAllLoop_ok {calls length : ℕ} {s t : Socket} {bytes : Bytes} (hopen : s.closed = false)
    (h : (recvAllLoop calls length).run s = .ok bytes t) :
    s.stream.length = bytes.length + t.stream.length ∧ bytes.length = length ∧
      ∃ j, PayloadAnswered j length s.recvIntos ∧
        t = { s with stream := t.stream, recvIntos := s.recvIntos.drop j } := by
  induction calls generalizing length s bytes with
  | zero =>
    cases length with
    | zero => cases h; exact ⟨by simp, rfl, 0, rfl, rfl⟩
    | succ length => cases h
  | succ calls ih =>
    cases length with
    | zero => cases h; exact ⟨by simp, rfl, 0, rfl, rfl⟩
    | succ length =>
      obtain ⟨packet, u, hread, h⟩ := bind_eq_ok.mp h
      obtain ⟨buffer, v, hloop, h⟩ := bind_eq_ok.mp h
      cases h
      obtain ⟨htimeout, hpacket, hu, hne⟩ := recvInto_ok hopen hread
      have huopen : u.closed = false := by rw [hu]; exact hopen
      obtain ⟨hcount, hlen, j, hj, ht⟩ := ih huopen hloop
      have hustream : u.stream.length = s.stream.length - min (length + 1) (s.recvIntos 0).amount := by
        rw [hu, List.length_drop]
      have hplen : packet.length =
          min (min (length + 1) (s.recvIntos 0).amount) s.stream.length := by
        rw [hpacket, List.length_take]
      have huintos : u.recvIntos = s.recvIntos.drop 1 := by rw [hu]
      have hleft : length + 1 - packet.length = length + 1 - (s.recvIntos 0).amount := by omega
      refine ⟨by rw [List.length_append]; omega, by rw [List.length_append]; omega,
        j + 1, ⟨by omega, htimeout, ?_⟩, ?_⟩
      · rw [← hleft, ← huintos]
        exact hj
      · rw [ht, hu]
        simp only [Schedule.drop_drop, Nat.add_comm]

theorem unpack_eq_ok {width n : ℕ} {bytes : Bytes} {s t : Socket}
    (h : (unpack width bytes).run s = .ok n t) :
    bytes.length = width ∧ n = BigEndian.decode bytes ∧ t = s := by
  unfold unpack at h
  split_ifs at h with hlen
  · cases h
    exact ⟨hlen, rfl, rfl⟩
  · cases h

def itemsSize (payloads : List Bytes) : ℕ := (payloads.map (fun p => 10 + p.length)).sum

/-- A successful read of items takes at most the bytes of items with these payloads, and takes
all of them only when every field came in one piece. -/
theorem receiveItems_ok {batchSize : ℕ} {s t : Socket} {received : List PyItem} {items : List Item}
    (hopen : s.closed = false) (h : (receiveItems batchSize).run s = .ok received t)
    (hitems : received.map PyItem.payload = items.map Item.data) :
    t.stream.length ≤ s.stream.length ∧
    s.stream.length ≤ itemsSize (received.map PyItem.payload) + t.stream.length ∧
    (s.stream.length = itemsSize (received.map PyItem.payload) + t.stream.length →
      ∃ calls, ItemsAnswered items s.recvs s.recvIntos calls ∧
        t = { s with
          stream := t.stream
          recvs := s.recvs.drop (3 * items.length)
          recvIntos := s.recvIntos.drop calls }) := by
  induction batchSize generalizing s received items with
  | zero =>
    cases h
    obtain rfl : items = [] := by simpa using hitems.symm
    exact ⟨le_rfl, by simp [itemsSize], fun _ => ⟨0, rfl, rfl⟩⟩
  | succ batchSize ih =>
    obtain ⟨idBytes, s₁, hid, h⟩ := bind_eq_ok.mp h
    obtain ⟨stateBytes, s₂, hstate, h⟩ := bind_eq_ok.mp h
    obtain ⟨lengthBytes, s₃, hlength, h⟩ := bind_eq_ok.mp h
    obtain ⟨length, s₄, hunpack, h⟩ := bind_eq_ok.mp h
    obtain ⟨payload, s₅, hpayload, h⟩ := bind_eq_ok.mp h
    obtain ⟨state, s₆, hunpack', h⟩ := bind_eq_ok.mp h
    obtain ⟨rest, s₇, hrest, h⟩ := bind_eq_ok.mp h
    cases h
    obtain ⟨-, -, rfl⟩ := unpack_eq_ok hunpack
    obtain ⟨-, -, rfl⟩ := unpack_eq_ok hunpack'
    obtain ⟨item, items, rfl, hdata, htail⟩ : ∃ item items', items = item :: items' ∧
        item.data = payload ∧ rest.map PyItem.payload = items'.map Item.data := by
      cases items with
      | nil => simp at hitems
      | cons item items =>
        simp only [List.map_cons, List.cons.injEq] at hitems
        exact ⟨item, items, rfl, hitems.1.symm, hitems.2⟩
    obtain ⟨hc₁, hle₁, hp₁, hf₁, he₁⟩ := recv_ok hopen (by decide) hid
    have ho₁ : s₁.closed = false := by rw [he₁]; exact hopen
    obtain ⟨hc₂, hle₂, hp₂, hf₂, he₂⟩ := recv_ok ho₁ (by decide) hstate
    have ho₂ : s₂.closed = false := by rw [he₂]; exact ho₁
    obtain ⟨hc₃, hle₃, hp₃, hf₃, he₃⟩ := recv_ok ho₂ (by decide) hlength
    have ho₃ : s₄.closed = false := by rw [he₃]; exact ho₂
    obtain ⟨hc₅, hlen₅, here, hhere, he₅⟩ := recvAllLoop_ok ho₃ hpayload
    have ho₅ : s₆.closed = false := by rw [he₅]; exact ho₃
    obtain ⟨hmono, hle, hfull⟩ := ih ho₅ hrest htail
    simp only [List.map_cons, itemsSize, List.sum_cons] at hle ⊢
    simp only [itemsSize] at hfull
    simp only [lengthTaskId, lengthTaskState, lengthTaskBodyLen] at hle₁ hle₂ hle₃ hf₁ hf₂ hf₃
    refine ⟨by omega, by omega, fun htotal => ?_⟩
    have h₁ := hf₁ (by omega)
    have h₂ := hf₂ (by omega)
    have h₃ := hf₃ (by omega)
    obtain ⟨later, hlater, he⟩ := hfull (by omega)
    have hr₁ : s₁.recvs = s.recvs.drop 1 := by rw [he₁]
    have hr₂ : s₂.recvs = s.recvs.drop 2 := by rw [he₂]; simp only [hr₁, Schedule.drop_drop]
    have hr₃ : s₄.recvs = s.recvs.drop 3 := by rw [he₃]; simp only [hr₂, Schedule.drop_drop]
    have hi₁ : s₁.recvIntos = s.recvIntos := by rw [he₁]
    have hi₂ : s₂.recvIntos = s.recvIntos := by rw [he₂]; exact hi₁
    have hi₃ : s₄.recvIntos = s.recvIntos := by rw [he₃]; exact hi₂
    have hr₆ : s₆.recvs = s.recvs.drop 3 := by rw [he₅]; exact hr₃
    have hi₆ : s₆.recvIntos = s.recvIntos.drop here := by rw [he₅]; simp only [hi₃]
    have ho : s₆.closed = s.closed := ho₅.trans hopen.symm
    refine ⟨here + later, ⟨h₁, ?_, ?_, here, later, rfl, ?_, ?_⟩, ?_⟩
    · rw [hr₁] at h₂; exact h₂
    · rw [hr₂] at h₃; exact h₃
    · rw [hdata, hlen₅, ← hi₃]; exact hhere
    · rw [← hr₆, ← hi₆]; exact hlater
    · refine he.trans ?_
      rw [ho, hr₆, hi₆, Schedule.drop_drop, Schedule.drop_drop, List.length_cons,
        show 3 + 3 * items.length = 3 * (items.length + 1) by omega]

theorem sendMessage_length (items : List Item) :
    (sendMessage items).length = 4 + itemsSize (items.map Item.data) := by
  simp only [sendMessage, List.length_append, putU16_length]
  congr 1
  induction items with
  | nil => rfl
  | cons item items ih =>
    simp only [List.flatMap_cons, List.length_append, ih, itemBytes, putU16_length, putU32_length,
      itemsSize, List.map_cons, List.sum_cons]

theorem receive_ok {items : List Item} {s t : Socket} (hopen : s.closed = false)
    (h : receive.run s = .ok (pyBatch items) t)
    (hcount : s.stream.length = (sendMessage items).length + t.stream.length) :
    ∃ calls, FrameAnswered items s.recvs s.recvIntos calls ∧
      t = { s with
        stream := t.stream
        recvs := s.recvs.drop (2 + 3 * items.length)
        recvIntos := s.recvIntos.drop calls } := by
  obtain ⟨flag, s₁, hflag, h⟩ := bind_eq_ok.mp h
  obtain ⟨batchBytes, s₂, hbatch, h⟩ := bind_eq_ok.mp h
  obtain ⟨batchSize, s₃, hunpack, h⟩ := bind_eq_ok.mp h
  obtain ⟨received, s₄, hitems, h⟩ := bind_eq_ok.mp h
  obtain ⟨hbatchEq, rfl⟩ : (⟨flag, received⟩ : PyBatch) = pyBatch items ∧ s₄ = t := by
    injection h with hb ht
    exact ⟨hb, ht⟩
  obtain ⟨-, -, rfl⟩ := unpack_eq_ok hunpack
  have hreceived : received = items.map pyItem := congrArg PyBatch.items hbatchEq
  have hpayloads : received.map PyItem.payload = items.map Item.data := by
    rw [hreceived, List.map_map]
    rfl
  obtain ⟨hc₁, hle₁, -, hf₁, he₁⟩ := recv_ok hopen (by decide) hflag
  have ho₁ : s₁.closed = false := by rw [he₁]; exact hopen
  obtain ⟨hc₂, hle₂, -, hf₂, he₂⟩ := recv_ok ho₁ (by decide) hbatch
  have ho₂ : s₃.closed = false := by rw [he₂]; exact ho₁
  obtain ⟨hmono, hle, hfull⟩ := receiveItems_ok ho₂ hitems hpayloads
  rw [sendMessage_length, ← hpayloads] at hcount
  simp only [lengthTaskFlag, lengthTaskBatch] at hle₁ hle₂ hf₁ hf₂
  have h₁ := hf₁ (by omega)
  have h₂ := hf₂ (by omega)
  obtain ⟨calls, hcalls, he⟩ := hfull (by omega)
  have hr₁ : s₁.recvs = s.recvs.drop 1 := by rw [he₁]
  have hr₂ : s₃.recvs = s.recvs.drop 2 := by rw [he₂]; simp only [hr₁, Schedule.drop_drop]
  have hi₁ : s₁.recvIntos = s.recvIntos := by rw [he₁]
  have hi₂ : s₃.recvIntos = s.recvIntos := by rw [he₂]; exact hi₁
  have ho : s₃.closed = s.closed := ho₂.trans hopen.symm
  refine ⟨calls, ⟨h₁, ?_, ?_⟩, ?_⟩
  · rw [hr₁] at h₂; exact h₂
  · rw [← hr₂, ← hi₂]; exact hcalls
  · refine he.trans ?_
    rw [ho, hr₂, hi₂, Schedule.drop_drop]

theorem recv_error {n : ℕ} {s t : Socket} {e : RecvError} (hopen : s.closed = false)
    (h : (recv n).run s = .error e t) :
    e = .timeout ∧ t = { s with recvs := s.recvs.drop 1 } ∧
      (s.stream ≠ [] → s.recvs 0 = .timeout) := by
  change answer n (s.recvs 0) { s with recvs := s.recvs.drop 1 } = _ at h
  unfold answer at h
  simp only [hopen, Bool.false_eq_true, ↓reduceIte] at h
  split_ifs at h with hempty htimeout
  · cases h
    exact ⟨rfl, by rw [hopen], fun hne => absurd hempty hne⟩
  · cases h
    exact ⟨rfl, by rw [hopen], fun _ => htimeout⟩

theorem receive_error {s t : Socket} {e : RecvError} (hopen : s.closed = false)
    (h : receive.run s = .error e t) (hkept : s.stream.length ≤ t.stream.length) :
    e = .timeout ∧ t = { s with recvs := s.recvs.drop 1 } ∧
      (s.stream ≠ [] → s.recvs 0 = .timeout) := by
  cases hflag : (recv lengthTaskFlag).run s with
  | error e' u =>
    rw [receive, bind_error hflag] at h
    cases h
    exact recv_error hopen hflag
  | ok flag u =>
    obtain ⟨hc, -, hpos, -, he⟩ := recv_ok hopen (by decide) hflag
    have huopen : u.closed = false := by rw [he]; exact hopen
    rw [receive, bind_ok hflag] at h
    have hrest : Consumes (do
        let batchSizeBytes ← recv lengthTaskBatch
        let batchSize ← unpack lengthTaskBatch batchSizeBytes
        let items ← receiveItems batchSize
        return (⟨flag, items⟩ : PyBatch)) :=
      .bind (recv_consumes _) fun _ => .bind (unpack_consumes _ _) fun _ =>
        .bind (receiveItems_consumes _) fun _ => .pure _
    have hle := (hrest u huopen).2
    rw [h] at hle
    simp only [resultSocket] at hle
    omega

end Mosec.Protocol
