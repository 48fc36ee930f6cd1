import Mathlib.Algebra.BigOperators.Fin
import Mosec.FrameSync

namespace Mosec.Protocol

open Finset (range)

def prepend (packet : Bytes) : EStateM.Result RecvError Socket Bytes →
    EStateM.Result RecvError Socket Bytes
  | .ok buffer s => .ok (packet ++ buffer) s
  | .error e s => .error e s

/-- What the loop of `_recv_all` has come to within `calls` calls of `recv_into`, and none while
it goes on. -/
def recvAllWithin : ℕ → ℕ → Socket → Option (EStateM.Result RecvError Socket Bytes)
  | _, 0, s => some (.ok [] s)
  | 0, _ + 1, _ => none
  | calls + 1, length + 1, s =>
    match (recvInto (length + 1)).run s with
    | .error e t => some (.error e t)
    | .ok packet t => (recvAllWithin calls (length + 1 - packet.length) t).map (prepend packet)

def Reports (stream : Bytes) (length : ℕ) : EStateM.Result RecvError Socket Bytes → Prop
  | .ok bytes _ => bytes = stream.take length ∧ bytes.length = length
  | .error _ _ => True

def Supplied (length : ℕ) (s : Socket) : Prop :=
  length ≤ s.stream.length ∨
    ∃ k, s.recvIntos k = .timeout ∧ ∑ i ∈ range k, (s.recvIntos i).amount < s.stream.length

theorem recvInto_drained {s : Socket} {n : ℕ} (hclosed : s.closed = true) (h : s.stream = []) :
    (recvInto n).run s = .ok [] { s with recvIntos := s.recvIntos.drop 1 } := by
  change answer _ _ _ = _
  rw [answer, if_pos h, if_pos hclosed]

theorem recvInto_late {s : Socket} {n : ℕ} (h : s.stream ≠ []) (ht : s.recvIntos 0 = .timeout) :
    (recvInto n).run s = .error .timeout { s with recvIntos := s.recvIntos.drop 1 } := by
  change answer _ _ _ = _
  rw [answer, if_neg h, if_pos ht]

theorem recvInto_fragment {s : Socket} {n : ℕ} (h : s.stream ≠ [])
    (ht : s.recvIntos 0 ≠ .timeout) :
    (recvInto n).run s = .ok (s.stream.take (min n (s.recvIntos 0).amount))
      { s with
        stream := s.stream.drop (min n (s.recvIntos 0).amount)
        recvIntos := s.recvIntos.drop 1 } := by
  change answer _ _ _ = _
  rw [answer, if_neg h, if_neg ht]

theorem Supplied.not_drained {s : Socket} {length : ℕ} (h : Supplied (length + 1) s) :
    s.stream ≠ [] := by
  intro he
  rw [Supplied, he, List.length_nil] at h
  rcases h with h | ⟨k, -, h⟩ <;> omega

theorem Supplied.of_timeout {s : Socket} (length : ℕ) (h : s.stream ≠ [])
    (ht : s.recvIntos 0 = .timeout) : Supplied length s :=
  .inr ⟨0, ht, by simpa using List.length_pos_iff.mpr h⟩

theorem supplied_fragment {s : Socket} (length : ℕ) {m : ℕ}
    (hm : m = min length (s.recvIntos 0).amount) (ht : s.recvIntos 0 ≠ .timeout) :
    Supplied (length - (s.stream.take m).length)
      { s with stream := s.stream.drop m, recvIntos := s.recvIntos.drop 1 } ↔
      Supplied length s := by
  simp only [Supplied, List.length_take, List.length_drop]
  have hsum (k : ℕ) : ∑ i ∈ range (k + 1), (s.recvIntos i).amount =
      ∑ i ∈ range k, ((s.recvIntos.drop 1) i).amount + (s.recvIntos 0).amount :=
    Finset.sum_range_succ' _ _
  constructor
  · rintro (h | ⟨k, hk, hlt⟩)
    · left
      omega
    · have := hsum k
      by_cases hall : length ≤ s.stream.length
      · exact .inl hall
      · exact .inr ⟨k + 1, hk, by omega⟩
  · rintro (h | ⟨k, hk, hlt⟩)
    · left
      omega
    · cases k with
      | zero => exact absurd hk ht
      | succ k =>
        have := hsum k
        by_cases hall : length - min m s.stream.length ≤ s.stream.length - m
        · exact .inl hall
        · exact .inr ⟨k, hk, by omega⟩

theorem recvAllWithin_of_supplied {calls length : ℕ} {s : Socket} (hs : Supplied length s)
    (hc : length ≤ calls) : ∃ result, recvAllWithin calls length s = some result := by
  induction calls generalizing length s with
  | zero =>
    obtain rfl : length = 0 := by omega
    exact ⟨_, rfl⟩
  | succ calls ih =>
    cases length with
    | zero => exact ⟨_, rfl⟩
    | succ length =>
      have hne := hs.not_drained
      rw [recvAllWithin]
      by_cases ht : s.recvIntos 0 = .timeout
      · rw [recvInto_late hne ht]
        exact ⟨_, rfl⟩
      · rw [recvInto_fragment hne ht]
        have hpos := Delivery.amount_pos ht
        have hlen : 0 < s.stream.length := List.length_pos_iff.mpr hne
        have hrest := (supplied_fragment (length + 1) rfl ht).mpr hs
        obtain ⟨result, hresult⟩ := ih hrest (by rw [List.length_take]; omega)
        exact ⟨_, congrArg (Option.map (prepend _)) hresult⟩

theorem recvAllWithin_of_not_supplied {calls length : ℕ} {s : Socket} (hclosed : s.closed = true)
    (hs : ¬ Supplied length s) : recvAllWithin calls length s = none := by
  induction calls generalizing length s with
  | zero =>
    cases length with
    | zero => exact absurd (.inl (Nat.zero_le _)) hs
    | succ length => rfl
  | succ calls ih =>
    cases length with
    | zero => exact absurd (.inl (Nat.zero_le _)) hs
    | succ length =>
      rw [recvAllWithin]
      by_cases hne : s.stream = []
      · rw [recvInto_drained hclosed hne]
        have hrest : ¬ Supplied (length + 1) { s with recvIntos := s.recvIntos.drop 1 } :=
          fun h => h.not_drained hne
        simp only [List.length_nil, Nat.sub_zero, ih (by exact hclosed) hrest, Option.map_none]
      · by_cases ht : s.recvIntos 0 = .timeout
        · exact absurd (Supplied.of_timeout _ hne ht) hs
        · rw [recvInto_fragment hne ht]
          have hrest := mt (supplied_fragment (length + 1) rfl ht).mp hs
          simp only [ih (by exact hclosed) hrest, Option.map_none]

theorem append_take {stream buffer : Bytes} {length m : ℕ} (hm : m ≤ length)
    (hbuffer : buffer = (stream.drop m).take (length - (stream.take m).length))
    (hlen : buffer.length = length - (stream.take m).length) :
    stream.take m ++ buffer = stream.take length ∧ (stream.take m ++ buffer).length = length := by
  have hpacket : (stream.take m).length = min m stream.length := List.length_take
  constructor
  · by_cases hfew : stream.length ≤ m
    · rw [hbuffer, List.drop_eq_nil_of_le hfew, List.take_nil, List.append_nil,
        List.take_of_length_le hfew, List.take_of_length_le (by omega)]
    · rw [hbuffer, hpacket, Nat.min_eq_left (by omega), ← List.take_add]
      congr 1
      omega
  · rw [List.length_append]
    omega

theorem recvAllWithin_reports {calls length : ℕ} {s : Socket}
    {result : EStateM.Result RecvError Socket Bytes} (hclosed : s.closed = true)
    (h : recvAllWithin calls length s = some result) : Reports s.stream length result := by
  have hs : Supplied length s := by
    by_contra hs
    rw [recvAllWithin_of_not_supplied hclosed hs] at h
    cases h
  induction calls generalizing length s result with
  | zero =>
    cases length with
    | zero => cases h; exact ⟨rfl, rfl⟩
    | succ length => cases h
  | succ calls ih =>
    cases length with
    | zero => cases h; exact ⟨rfl, rfl⟩
    | succ length =>
      have hne := hs.not_drained
      rw [recvAllWithin] at h
      by_cases ht : s.recvIntos 0 = .timeout
      · rw [recvInto_late hne ht] at h
        cases h
        trivial
      · rw [recvInto_fragment hne ht] at h
        obtain ⟨rest, hrest, rfl⟩ := Option.map_eq_some_iff.mp h
        cases rest with
        | error e t => trivial
        | ok buffer t =>
          have hleft := (supplied_fragment (length + 1) rfl ht).mpr hs
          have hm := Nat.min_le_left (length + 1) (s.recvIntos 0).amount
          generalize min (length + 1) (s.recvIntos 0).amount = m at hm hrest hleft
          obtain ⟨hbuffer, hlen⟩ := ih (by exact hclosed) hrest hleft
          exact append_take hm hbuffer hlen

theorem recvAllLoop_within {calls length : ℕ} {s : Socket}
    {result : EStateM.Result RecvError Socket Bytes}
    (h : recvAllWithin calls length s = some result) :
    (recvAllLoop calls length).run s = result := by
  induction calls generalizing length s result with
  | zero =>
    cases length with
    | zero => cases h; rfl
    | succ length => cases h
  | succ calls ih =>
    cases length with
    | zero => cases h; rfl
    | succ length =>
      rw [recvAllWithin] at h
      cases hread : (recvInto (length + 1)).run s with
      | error e t =>
        rw [hread] at h
        cases h
        exact bind_error hread
      | ok packet t =>
        rw [hread] at h
        obtain ⟨rest, hrest, rfl⟩ := Option.map_eq_some_iff.mp h
        rw [recvAllLoop, bind_ok hread]
        cases rest with
        | error e u => exact bind_error (ih hrest)
        | ok buffer u => exact bind_ok (ih hrest)

theorem recvAllLoop_spins {calls length : ℕ} {s : Socket}
    (h : recvAllWithin calls length s = none) :
    ∃ t, (recvAllLoop calls length).run s = .error .spin t := by
  induction calls generalizing length s with
  | zero =>
    cases length with
    | zero => cases h
    | succ length => exact ⟨s, rfl⟩
  | succ calls ih =>
    cases length with
    | zero => cases h
    | succ length =>
      rw [recvAllWithin] at h
      cases hread : (recvInto (length + 1)).run s with
      | error e t => rw [hread] at h; cases h
      | ok packet t =>
        rw [hread] at h
        obtain ⟨u, hu⟩ := ih (Option.map_eq_none_iff.mp h)
        exact ⟨u, by rw [recvAllLoop, bind_ok hread, bind_error hu]⟩

def Spins {α : Type} (x : Recv α) (s : Socket) : Prop := ∃ t, x.run s = .error .spin t

theorem spins_bind {α β : Type} {x : Recv α} {f : α → Recv β} {s : Socket} :
    Spins (x >>= f) s ↔ Spins x s ∨ ∃ a t, x.run s = .ok a t ∧ Spins (f a) t := by
  constructor
  · rintro ⟨t, ht⟩
    rcases bind_eq_error.mp ht with h | ⟨a, u, hu, h⟩
    · exact .inl ⟨t, h⟩
    · exact .inr ⟨a, u, hu, t, h⟩
  · rintro (⟨t, h⟩ | ⟨a, u, hu, t, h⟩)
    · exact ⟨t, bind_error h⟩
    · exact ⟨t, (bind_ok hu).trans h⟩

theorem answer_not_spin {n : ℕ} {d : Delivery} {s t : Socket} :
    answer n d s ≠ .error .spin t := by
  intro h
  unfold answer at h
  split_ifs at h <;> cases h

theorem recv_not_spins (n : ℕ) (s : Socket) : ¬ Spins (recv n) s :=
  fun ⟨_, h⟩ => answer_not_spin h

theorem unpack_not_spins (width : ℕ) (bytes : Bytes) (s : Socket) :
    ¬ Spins (unpack width bytes) s := by
  rintro ⟨t, h⟩
  unfold unpack at h
  split_ifs at h <;> cases h

theorem pure_not_spins {α : Type} (a : α) (s : Socket) : ¬ Spins (pure a : Recv α) s := by
  rintro ⟨t, h⟩
  cases h

theorem recvAllWithin_not_spin {calls length : ℕ} {s t : Socket} :
    recvAllWithin calls length s ≠ some (.error .spin t) := by
  intro h
  induction calls generalizing length s t with
  | zero => cases length <;> cases h
  | succ calls ih =>
    cases length with
    | zero => cases h
    | succ length =>
      rw [recvAllWithin] at h
      cases hread : (recvInto (length + 1)).run s with
      | error e u =>
        rw [hread] at h
        injection h with h
        injection h with he hu
        exact answer_not_spin (he ▸ hread)
      | ok packet u =>
        rw [hread] at h
        obtain ⟨rest, hrest, hp⟩ := Option.map_eq_some_iff.mp h
        cases rest with
        | ok buffer v => cases hp
        | error e v =>
          injection hp with he
          exact ih (he ▸ hrest)

theorem recvAll_spins_iff {length : ℕ} {s : Socket} (hclosed : s.closed = true) :
    Spins (recvAll length) s ↔ ¬ Supplied length s := by
  constructor
  · rintro ⟨t, ht⟩ hs
    obtain ⟨result, hresult⟩ := recvAllWithin_of_supplied hs le_rfl
    rw [recvAll, recvAllLoop_within hresult] at ht
    subst ht
    exact recvAllWithin_not_spin hresult
  · intro hs
    exact recvAllLoop_spins (recvAllWithin_of_not_supplied hclosed hs)

def Keeps {α : Type} (x : Recv α) : Prop := ∀ s a t, x.run s = .ok a t → t.closed = s.closed

theorem Keeps.bind {α β : Type} {x : Recv α} {f : α → Recv β} (hx : Keeps x)
    (hf : ∀ a, Keeps (f a)) : Keeps (x >>= f) := by
  intro s b t h
  obtain ⟨a, u, hu, h⟩ := bind_eq_ok.mp h
  exact (hf a u b t h).trans (hx s a u hu)

theorem answer_keeps {n : ℕ} {d : Delivery} {s t : Socket} {bytes : Bytes}
    (h : answer n d s = .ok bytes t) : t.closed = s.closed := by
  unfold answer at h
  split_ifs at h <;> cases h <;> rfl

theorem recv_keeps (n : ℕ) : Keeps (recv n) := by
  intro s bytes t h
  change answer n (s.recvs 0) { s with recvs := s.recvs.drop 1 } = _ at h
  exact answer_keeps (s := { s with recvs := s.recvs.drop 1 }) h

theorem recvInto_keeps (n : ℕ) : Keeps (recvInto n) := by
  intro s bytes t h
  change answer n (s.recvIntos 0) { s with recvIntos := s.recvIntos.drop 1 } = _ at h
  exact answer_keeps (s := { s with recvIntos := s.recvIntos.drop 1 }) h

theorem pure_keeps {α : Type} (a : α) : Keeps (pure a : Recv α) := by
  intro s b t h
  cases h
  rfl

theorem unpack_keeps (width : ℕ) (bytes : Bytes) : Keeps (unpack width bytes) := by
  intro s n t h
  rw [(unpack_eq_ok h).2.2]

theorem recvAllLoop_keeps (calls length : ℕ) : Keeps (recvAllLoop calls length) := by
  induction calls generalizing length with
  | zero =>
    cases length with
    | zero => exact pure_keeps []
    | succ length => intro s a t h; cases h
  | succ calls ih =>
    cases length with
    | zero => exact pure_keeps []
    | succ length =>
      exact (recvInto_keeps _).bind fun _ => (ih _).bind fun _ => pure_keeps _

def itemHeader : Recv (Bytes × Bytes × ℕ) := do
  let idBytes ← recv lengthTaskId
  let stateBytes ← recv lengthTaskState
  let lengthBytes ← recv lengthTaskBodyLen
  let length ← unpack lengthTaskBodyLen lengthBytes
  return (idBytes, stateBytes, length)

/-- With this many items to come, `receive` calls `_recv_all` on this length and socket. -/
inductive ItemRead : ℕ → Socket → ℕ → Socket → Prop
  | here {n : ℕ} {s t : Socket} {idBytes stateBytes : Bytes} {length : ℕ}
      (header : itemHeader.run s = .ok (idBytes, stateBytes, length) t) :
      ItemRead (n + 1) s length t
  | later {n : ℕ} {s t u v : Socket} {idBytes stateBytes payload : Bytes} {length later : ℕ}
      (header : itemHeader.run s = .ok (idBytes, stateBytes, length) t)
      (read : (recvAll length).run t = .ok payload u) (whole : stateBytes.length = lengthTaskState)
      (rest : ItemRead n u later v) :
      ItemRead (n + 1) s later v

inductive PayloadRead (s : Socket) (length : ℕ) (v : Socket) : Prop
  | intro {t u : Socket} {flag batchSizeBytes : Bytes}
      (flagRead : (recv lengthTaskFlag).run s = .ok flag t)
      (countRead : (recv lengthTaskBatch).run t = .ok batchSizeBytes u)
      (whole : batchSizeBytes.length = lengthTaskBatch)
      (item : ItemRead (BigEndian.decode batchSizeBytes) u length v)

theorem receiveItems_succ (n : ℕ) : receiveItems (n + 1) = do
    let (idBytes, stateBytes, length) ← itemHeader
    let payload ← recvAll length
    let state ← unpack lengthTaskState stateBytes
    let items ← receiveItems n
    return ⟨idBytes, state, payload⟩ :: items := by
  simp only [receiveItems, itemHeader, bind_assoc, pure_bind]

theorem itemHeader_keeps : Keeps itemHeader :=
  (recv_keeps _).bind fun _ => (recv_keeps _).bind fun _ => (recv_keeps _).bind fun _ =>
    (unpack_keeps _ _).bind fun _ => pure_keeps _

theorem itemHeader_not_spins (s : Socket) : ¬ Spins itemHeader s := by
  simp only [itemHeader, spins_bind, recv_not_spins, unpack_not_spins, pure_not_spins, and_false,
    exists_false, or_false, not_false_eq_true]

theorem receiveItems_spins_iff {n : ℕ} {s : Socket} (hclosed : s.closed = true) :
    Spins (receiveItems n) s ↔ ∃ length t, ItemRead n s length t ∧ ¬ Supplied length t := by
  induction n generalizing s with
  | zero =>
    constructor
    · intro h
      exact absurd h (pure_not_spins _ _)
    · rintro ⟨length, t, h, -⟩
      cases h
  | succ n ih =>
    rw [receiveItems_succ]
    constructor
    · intro hspin
      rcases spins_bind.mp hspin with h | ⟨⟨idBytes, stateBytes, length⟩, t, ht, hafter⟩
      · exact absurd h (itemHeader_not_spins s)
      have htclosed := (itemHeader_keeps _ _ _ ht).trans hclosed
      rcases spins_bind.mp hafter with h | ⟨payload, u, hu, hread⟩
      · exact ⟨length, t, .here ht, (recvAll_spins_iff htclosed).mp h⟩
      have huclosed := (recvAllLoop_keeps _ _ _ _ _ hu).trans htclosed
      rcases spins_bind.mp hread with h | ⟨state, v, hv, hrest⟩
      · exact absurd h (unpack_not_spins _ _ _)
      obtain ⟨hwhole, -, rfl⟩ := unpack_eq_ok hv
      rcases spins_bind.mp hrest with h | ⟨items, w, -, h⟩
      · obtain ⟨later, x, hitem, hshort⟩ := (ih huclosed).mp h
        exact ⟨later, x, .later ht hu hwhole hitem, hshort⟩
      · exact absurd h (pure_not_spins _ _)
    · rintro ⟨later, x, hitem, hshort⟩
      cases hitem with
      | here header =>
        have htclosed := (itemHeader_keeps _ _ _ header).trans hclosed
        have hspin := (recvAll_spins_iff htclosed).mpr hshort
        exact spins_bind.mpr (.inr ⟨_, _, header, spins_bind.mpr (.inl hspin)⟩)
      | later header read whole rest =>
        have htclosed := (itemHeader_keeps _ _ _ header).trans hclosed
        have huclosed := (recvAllLoop_keeps _ _ _ _ _ read).trans htclosed
        have hspin := (ih huclosed).mpr ⟨later, x, rest, hshort⟩
        refine spins_bind.mpr (.inr ⟨_, _, header, spins_bind.mpr (.inr ⟨_, _, read, ?_⟩)⟩)
        exact spins_bind.mpr (.inr ⟨_, _, unpack_ok _ whole, spins_bind.mpr (.inl hspin)⟩)

theorem receive_spins_iff {s : Socket} (hclosed : s.closed = true) :
    Spins receive s ↔ ∃ length t, PayloadRead s length t ∧ ¬ Supplied length t := by
  constructor
  · intro hspin
    rcases spins_bind.mp hspin with h | ⟨flag, t, ht, hcount⟩
    · exact absurd h (recv_not_spins _ _)
    rcases spins_bind.mp hcount with h | ⟨batchSizeBytes, u, hu, hunpack⟩
    · exact absurd h (recv_not_spins _ _)
    rcases spins_bind.mp hunpack with h | ⟨batchSize, v, hv, hitems⟩
    · exact absurd h (unpack_not_spins _ _ _)
    obtain ⟨hwhole, rfl, rfl⟩ := unpack_eq_ok hv
    have huclosed := (recv_keeps _ _ _ _ hu).trans ((recv_keeps _ _ _ _ ht).trans hclosed)
    rcases spins_bind.mp hitems with h | ⟨items, w, -, h⟩
    · obtain ⟨length, x, hitem, hshort⟩ := (receiveItems_spins_iff huclosed).mp h
      exact ⟨length, x, .intro ht hu hwhole hitem, hshort⟩
    · exact absurd h (pure_not_spins _ _)
  · rintro ⟨length, x, ⟨ht, hu, hwhole, hitem⟩, hshort⟩
    have huclosed := (recv_keeps _ _ _ _ hu).trans ((recv_keeps _ _ _ _ ht).trans hclosed)
    have hspin := (receiveItems_spins_iff huclosed).mpr ⟨length, x, hitem, hshort⟩
    refine spins_bind.mpr (.inr ⟨_, _, ht, spins_bind.mpr (.inr ⟨_, _, hu, ?_⟩)⟩)
    exact spins_bind.mpr (.inr ⟨_, _, unpack_ok _ hwhole, spins_bind.mpr (.inl hspin)⟩)

theorem recvAll_ends_iff (stream : Bytes) (recvs recvIntos : Schedule) :
    let s : Socket := ⟨stream, true, recvs, recvIntos⟩
    (∀ length, (∃ calls result, recvAllWithin calls length s = some result ∧
        (recvAll length).run s = result ∧ Reports stream length result) ↔ Supplied length s) ∧
      (¬ Spins receive s ↔ ∀ length t, PayloadRead s length t → Supplied length t) := by
  intro s
  constructor
  · intro length
    constructor
    · rintro ⟨calls, result, hresult, -⟩
      by_contra hs
      rw [recvAllWithin_of_not_supplied rfl hs] at hresult
      cases hresult
    · intro hs
      obtain ⟨result, hresult⟩ := recvAllWithin_of_supplied hs le_rfl
      exact ⟨length, result, hresult, recvAllLoop_within hresult,
        recvAllWithin_reports rfl hresult⟩
  · rw [receive_spins_iff rfl]
    simp only [not_exists, not_and, not_not]

theorem recvAll_never_ends :
    let s : Socket := ⟨[42], true, fun _ => .upTo 4, fun _ => .upTo 1⟩
    let frame : Bytes := [0, 0, 0, 1, 0, 0, 0, 7, 0, 3, 0, 0, 0, 2, 42]
    (∀ calls, recvAllWithin calls 2 s = none) ∧ Spins receive { s with stream := frame } := by
  intro s frame
  have hs : ¬ Supplied 2 s := by
    rintro (h | ⟨k, h, -⟩)
    · exact absurd h (by decide)
    · cases h
  have hitem : ItemRead 1 { s with stream := frame.drop 4 } 2 s := .here rfl
  refine ⟨fun calls => recvAllWithin_of_not_supplied rfl hs, (receive_spins_iff rfl).mpr ?_⟩
  exact ⟨2, s, .intro rfl rfl rfl hitem, hs⟩

end Mosec.Protocol
