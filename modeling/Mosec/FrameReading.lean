import Mosec.Protocol

namespace Mosec.Protocol

open Wire

def pyItem (item : Item) : PyItem := ⟨putU32 item.id, item.state.toNat, item.data⟩

def pyBatch (items : List Item) : PyBatch := ⟨putU16 0, items.map pyItem⟩

def WellSized (items : List Item) : Prop :=
  items.length < 2 ^ 16 ∧ ∀ item ∈ items, item.data.length < 2 ^ 32

def Full (n : ℕ) (d : Delivery) : Prop := n ≤ d.amount

instance (n : ℕ) (d : Delivery) : Decidable (Full n d) := inferInstanceAs (Decidable (n ≤ d.amount))

def PayloadAnswered : ℕ → ℕ → Schedule → Prop
  | 0, length, _ => length = 0
  | calls + 1, length, d =>
    0 < length ∧ d 0 ≠ .timeout ∧ PayloadAnswered calls (length - (d 0).amount) (d.drop 1)

/-- Every header field of the items comes in one piece and no payload read times out;
`calls` counts the payload reads. -/
def ItemsAnswered : List Item → Schedule → Schedule → ℕ → Prop
  | [], _, _, calls => calls = 0
  | item :: items, headers, payloads, calls =>
    Full lengthTaskId (headers 0) ∧ Full lengthTaskState (headers 1) ∧
      Full lengthTaskBodyLen (headers 2) ∧ ∃ here later, calls = here + later ∧
        PayloadAnswered here item.data.length payloads ∧
        ItemsAnswered items (headers.drop 3) (payloads.drop here) later

def FrameAnswered (items : List Item) (headers payloads : Schedule) (calls : ℕ) : Prop :=
  Full lengthTaskFlag (headers 0) ∧ Full lengthTaskBatch (headers 1) ∧
    ItemsAnswered items (headers.drop 2) payloads calls

theorem Schedule.drop_drop (d : Schedule) (m n : ℕ) : (d.drop m).drop n = d.drop (m + n) := by
  funext i
  simp only [Schedule.drop]
  congr 1
  omega

@[simp] theorem Schedule.drop_zero (d : Schedule) : d.drop 0 = d := rfl

theorem Delivery.amount_pos {d : Delivery} (h : d ≠ .timeout) : 0 < d.amount := by
  cases d with
  | timeout => exact absurd rfl h
  | upTo k => simp only [Delivery.amount]; omega

theorem append_ne_nil_of_length {bytes rest : Bytes} (h : 0 < bytes.length) : bytes ++ rest ≠ [] := by
  intro he
  have := congrArg List.length he
  simp only [List.length_append, List.length_nil] at this
  omega

theorem answer_full {n : ℕ} {d : Delivery} {s : Socket} {bytes rest : Bytes} (hn : 0 < n)
    (hd : Full n d) (hs : s.stream = bytes ++ rest) (hlen : bytes.length = n) :
    answer n d s = .ok bytes { s with stream := rest } := by
  have hne : s.stream ≠ [] := hs ▸ append_ne_nil_of_length (by omega)
  have ht : d ≠ .timeout := by
    rintro rfl
    simp only [Full, Delivery.amount] at hd
    omega
  have hmin : min n d.amount = bytes.length := by rw [hlen]; exact Nat.min_eq_left hd
  rw [answer, if_neg hne, if_neg ht, hmin, hs, List.take_left, List.drop_left]

theorem recv_full {n : ℕ} {s : Socket} {bytes rest : Bytes} (hn : 0 < n)
    (hd : Full n (s.recvs 0)) (hs : s.stream = bytes ++ rest) (hlen : bytes.length = n) :
    (recv n).run s = .ok bytes { s with stream := rest, recvs := s.recvs.drop 1 } :=
  answer_full hn hd hs hlen

theorem bind_ok {α β : Type} {x : Recv α} {f : α → Recv β} {s s' : Socket} {a : α}
    (h : x.run s = .ok a s') : (x >>= f).run s = (f a).run s' := by
  rw [EStateM.run_bind, h]

theorem bind_error {α β : Type} {x : Recv α} {f : α → Recv β} {s s' : Socket} {e : RecvError}
    (h : x.run s = .error e s') : (x >>= f).run s = .error e s' := by
  rw [EStateM.run_bind, h]

theorem unpack_ok {width : ℕ} {bytes : Bytes} (s : Socket) (h : bytes.length = width) :
    (unpack width bytes).run s = .ok (BigEndian.decode bytes) s := by
  rw [unpack, if_pos h]
  rfl

theorem recvAllLoop_answered {j calls length : ℕ} {s : Socket} {bytes rest : Bytes}
    (hp : PayloadAnswered j length s.recvIntos) (hs : s.stream = bytes ++ rest)
    (hlen : bytes.length = length) (hc : length ≤ calls) :
    (recvAllLoop calls length).run s =
      .ok bytes { s with stream := rest, recvIntos := s.recvIntos.drop j } := by
  induction j generalizing calls length s bytes with
  | zero =>
    obtain rfl : length = 0 := hp
    obtain rfl : bytes = [] := List.length_eq_zero_iff.mp hlen
    have he : s = { s with stream := rest, recvIntos := s.recvIntos.drop 0 } := by
      rw [Schedule.drop_zero, show rest = s.stream by rw [hs, List.nil_append]]
    rw [← he]
    cases calls <;> rfl
  | succ j ih =>
    obtain ⟨hpos, ht, hrest⟩ := hp
    obtain ⟨n, rfl⟩ : ∃ n, length = n + 1 := ⟨length - 1, by omega⟩
    obtain ⟨c, rfl⟩ : ∃ c, calls = c + 1 := ⟨calls - 1, by omega⟩
    let m := min (n + 1) (s.recvIntos 0).amount
    have hm : 0 < m := by have := Delivery.amount_pos ht; omega
    have hne : s.stream ≠ [] := hs ▸ append_ne_nil_of_length (by omega)
    have htake : s.stream.take m = bytes.take m := by
      rw [hs, List.take_append_of_le_length (by omega)]
    have hdrop : s.stream.drop m = bytes.drop m ++ rest := by
      rw [hs, List.drop_append_of_le_length (by omega)]
    have hread : (recvInto (n + 1)).run s = .ok (bytes.take m)
        { s with stream := bytes.drop m ++ rest, recvIntos := s.recvIntos.drop 1 } := by
      change answer _ _ _ = _
      simp only [answer, hne, ↓reduceIte, ht]
      rw [← htake, ← hdrop]
    have hpacket : (bytes.take m).length = m := by rw [List.length_take]; omega
    have hleft : n + 1 - m = n + 1 - (s.recvIntos 0).amount := by omega
    rw [recvAllLoop, bind_ok hread, hpacket]
    rw [bind_ok (ih (by rw [hleft]; exact hrest) rfl (by rw [List.length_drop]; omega) (by omega))]
    change EStateM.Result.ok _ _ = _
    rw [List.take_append_drop, Schedule.drop_drop, Nat.add_comm]

theorem receiveItems_answered {items : List Item} {calls : ℕ} {s : Socket} {rest : Bytes}
    (hi : ItemsAnswered items s.recvs s.recvIntos calls)
    (hsize : ∀ item ∈ items, item.data.length < 2 ^ 32)
    (hs : s.stream = items.flatMap itemBytes ++ rest) :
    (receiveItems items.length).run s = .ok (items.map pyItem)
      { s with
        stream := rest
        recvs := s.recvs.drop (3 * items.length)
        recvIntos := s.recvIntos.drop calls } := by
  induction items generalizing s calls with
  | nil =>
    obtain rfl : calls = 0 := hi
    rw [List.flatMap_nil, List.nil_append] at hs
    subst hs
    rfl
  | cons item items ih =>
    obtain ⟨hid, hstate, hlength, here, later, rfl, hpayload, hlater⟩ := hi
    have hlen : (UInt32.ofNat item.data.length).toNat = item.data.length :=
      UInt32.toNat_ofNat_of_lt' (hsize item (by simp))
    simp only [List.flatMap_cons, itemBytes, List.append_assoc] at hs
    rw [List.length_cons, receiveItems]
    rw [bind_ok (recv_full (by decide) hid hs (putU32_length _))]
    rw [bind_ok (recv_full (by decide) hstate rfl (putU16_length _))]
    rw [bind_ok (recv_full (by decide) hlength rfl (putU32_length _))]
    rw [bind_ok (unpack_ok _ (putU32_length _))]
    have hdecode : BigEndian.decode (putU32 (UInt32.ofNat item.data.length)) = item.data.length := by
      rw [putU32, hlen, BigEndian.decode_encode_of_lt]
      exact hsize item (by simp)
    have hstateval : BigEndian.decode (putU16 item.state) = item.state.toNat :=
      BigEndian.decode_encode_of_lt item.state.toNat_lt
    rw [hdecode, recvAll]
    simp only [Schedule.drop_drop] at hlater ⊢
    let t : Socket := ⟨item.data ++ (items.flatMap itemBytes ++ rest), s.closed, s.recvs.drop 3, s.recvIntos⟩
    have hdata := recvAllLoop_answered (s := t) hpayload rfl rfl le_rfl
    let u : Socket := ⟨items.flatMap itemBytes ++ rest, s.closed, s.recvs.drop 3, s.recvIntos.drop here⟩
    have htail := ih (s := u) hlater (fun i hi => hsize i (List.mem_cons_of_mem _ hi)) rfl
    rw [bind_ok hdata, bind_ok (unpack_ok _ (putU16_length _)), hstateval, bind_ok htail]
    simp only [u, List.map_cons, pyItem, Schedule.drop_drop]
    rw [show 3 + 3 * items.length = 3 * (items.length + 1) by omega]
    rfl

theorem receive_answered {items : List Item} {calls : ℕ} {s : Socket} {rest : Bytes}
    (hf : FrameAnswered items s.recvs s.recvIntos calls) (hsize : WellSized items)
    (hs : s.stream = sendMessage items ++ rest) :
    receive.run s = .ok (pyBatch items)
      { s with
        stream := rest
        recvs := s.recvs.drop (2 + 3 * items.length)
        recvIntos := s.recvIntos.drop calls } := by
  obtain ⟨hflag, hbatch, hitems⟩ := hf
  simp only [sendMessage, List.append_assoc] at hs
  have hlen : (UInt16.ofNat items.length).toNat = items.length :=
    UInt16.toNat_ofNat_of_lt' hsize.1
  have hdecode : BigEndian.decode (putU16 (UInt16.ofNat items.length)) = items.length := by
    rw [putU16, hlen, BigEndian.decode_encode_of_lt hsize.1]
  rw [receive, bind_ok (recv_full (by decide) hflag hs (putU16_length _))]
  rw [bind_ok (recv_full (by decide) hbatch rfl (putU16_length _))]
  rw [bind_ok (unpack_ok _ (putU16_length _)), hdecode]
  rw [bind_ok (receiveItems_answered hitems hsize.2 rfl)]
  simp only [Schedule.drop_drop]
  rfl

end Mosec.Protocol
