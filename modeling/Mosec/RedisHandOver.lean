import Mosec.RedisShm

namespace Mosec

open Function (update)

theorem decimal_injective : Function.Injective decimal := by
  intro n m h
  have hchars : ∀ k : ℕ, ((decimal k).map fun b => Char.ofNat b.toNat) = Nat.toDigits 10 k := by
    intro k
    rw [decimal, List.map_map]
    refine (List.map_congr_left ?_).trans (List.map_id _)
    intro c hc
    have hdigit := Nat.isDigit_of_mem_toDigits (by omega) (by omega) hc
    have hbound : c.toNat ≤ 57 := by
      simp only [Char.isDigit, Bool.and_eq_true, decide_eq_true_eq] at hdigit
      exact UInt32.le_iff_toNat_le.mp hdigit.2
    have hbyte : (UInt8.ofNat c.toNat).toNat = c.toNat := by
      rw [UInt8.toNat_ofNat']
      omega
    rw [Function.comp_apply, hbyte, Char.ofNat_toNat, id_eq]
  have hdigits : Nat.toDigits 10 n = Nat.toDigits 10 m := by rw [← hchars n, ← hchars m, h]
  have hn := Nat.ofDigitChars_ten_toDigits (n := n)
  rw [hdigits, Nat.ofDigitChars_ten_toDigits] at hn
  exact hn.symm

namespace ShmSystem

variable {α : Type} {ipc : SuperIpc α} {s s' : ShmSystem α} {event : ShmEvent α}

structure KeepsIds (s s' : ShmSystem α) : Prop where
  counter : s.redis.counter ≤ s'.redis.counter
  nextId : ∀ q, (s'.worker q).nextId = (s.worker q).nextId

structure Draws (p : ℕ) (s s' : ShmSystem α) : Prop where
  counter : s'.redis.counter = s.redis.counter + 1
  nextId : ∀ q, (s'.worker q).nextId =
    if q = p then some (decimal (s.redis.counter + 1)) else (s.worker q).nextId

theorem setWorker_nextId (s : ShmSystem α) (p : ℕ) (nextId : Option Bytes) (call : ShmCall α)
    (q : ℕ) : ((s.setWorker p nextId call).worker q).nextId =
      if q = p then nextId else (s.worker q).nextId := by
  change (update s.worker p ⟨nextId, call⟩ q).nextId = _
  by_cases hq : q = p
  · rw [hq, Function.update_self, if_pos rfl]
  · rw [Function.update_of_ne hq, if_neg hq]

theorem KeepsIds.setWorker {redis : Redis} (hcounter : s.redis.counter ≤ redis.counter)
    {p : ℕ} {nextId : Option Bytes} (hid : (s.worker p).nextId = nextId) (call : ShmCall α) :
    KeepsIds s ((s.setRedis redis).setWorker p nextId call) where
  counter := hcounter
  nextId := by
    intro q
    rw [setWorker_nextId]
    split
    case isTrue hq => rw [hq, hid]
    case isFalse => rfl

theorem Draws.setWorker {redis : Redis} (hcounter : redis.counter = s.redis.counter + 1) (p : ℕ)
    (call : ShmCall α) :
    Draws p s ((s.setRedis redis).setWorker p (some (decimal (s.redis.counter + 1))) call) where
  counter := hcounter
  nextId := fun _ => setWorker_nextId ..

theorem server_counter (s s' : Redis) (h : s.counter ≤ s'.counter) (exchange : Exchange) :
    s.counter ≤ (exchange.server s s').counter := by
  cases exchange with
  | replied => exact h
  | raisedBefore => exact Nat.le_refl _
  | raisedAfter => exact h

theorem prepare_ids (p : ℕ) (data : α) (exchange : Exchange) (hid : (s.worker p).nextId = none) :
    KeepsIds s (s.prepare p data exchange) ∨ Draws p s (s.prepare p data exchange) := by
  have hcounter := server_counter s.redis s.redis.incr (Nat.le_succ _) exchange
  cases exchange with
  | replied => exact .inr (.setWorker (rfl : s.redis.incr.counter = _) p _)
  | raisedBefore | raisedAfter => exact .inl (.setWorker hcounter hid _)

theorem executeSet_ids (p : ℕ) (currentId stored : Bytes) (exchange : Exchange)
    (hid : (s.worker p).nextId = some currentId) :
    (KeepsIds s (s.executeSet p currentId stored exchange) ∧ exchange ≠ .replied) ∨
      Draws p s (s.executeSet p currentId stored exchange) := by
  have hcounter :=
    server_counter s.redis (s.redis.setIncr currentId stored) (Nat.le_succ _) exchange
  cases exchange with
  | replied => exact .inr (.setWorker (rfl : (s.redis.setIncr currentId stored).counter = _) p _)
  | raisedBefore | raisedAfter => exact .inl ⟨.setWorker hcounter hid _, nofun⟩

theorem Step.ids (h : Step ipc s event s') :
    (KeepsIds s s' ∧ event.returned = none) ∨
      ∃ p, Draws p s s' ∧ ∀ id, event.returned = some id → (s.worker p).nextId = some id := by
  have hkeep : ∀ p call, KeepsIds s (s.setWorker p (s.worker p).nextId call) :=
    fun p call => .setWorker (Nat.le_refl s.redis.counter) rfl call
  cases h with
  | callSerialize p data hidle => exact .inl ⟨hkeep p _, rfl⟩
  | prepareNextId p data exchange hcall hid =>
    cases prepare_ids p data exchange hid with
    | inl hkeeps => exact .inl ⟨hkeeps, rfl⟩
    | inr hdraws => exact .inr ⟨p, hdraws, nofun⟩
  | keepNextId p data currentId hcall hid => exact .inl ⟨hid ▸ hkeep p _, rfl⟩
  | serializeRaises p data hcall hraise => exact .inl ⟨hkeep p _, rfl⟩
  | serializeIpc p data currentId stored exchange hcall hid hdata =>
    cases executeSet_ids p currentId stored exchange hid with
    | inl hkeeps =>
      refine .inl ⟨hkeeps.1, ?_⟩
      cases exchange with
      | replied => exact absurd rfl hkeeps.2
      | raisedBefore | raisedAfter => rfl
    | inr hdraws =>
      refine .inr ⟨p, hdraws, ?_⟩
      intro id hret
      cases exchange with
      | replied => exact hid.trans hret
      | raisedBefore | raisedAfter => cases hret
  | callDeserialize p objectId hidle => exact .inl ⟨hkeep p _, rfl⟩
  | deserializeIpc p objectId exchange hcall =>
    have hcounter :=
      server_counter s.redis (s.redis.getDelete objectId) (Nat.le_refl _) exchange
    exact .inl ⟨.setWorker hcounter rfl _, rfl⟩

theorem Step.object (h : Step ipc s event s') (id : Bytes) :
    s'.redis.object id = s.redis.object id ∨ event.fetches id = true ∨
      ∃ p, (s.worker p).nextId = some id := by
  cases h with
  | callSerialize | keepNextId | serializeRaises | callDeserialize => exact .inl rfl
  | prepareNextId p data exchange hcall hid => cases exchange <;> exact .inl rfl
  | serializeIpc p data currentId stored exchange hcall hid hdata =>
    by_cases heq : id = currentId
    · exact .inr (.inr ⟨p, heq ▸ hid⟩)
    · cases exchange with
      | raisedBefore => exact .inl rfl
      | replied | raisedAfter => exact .inl (Function.update_of_ne heq ..)
  | deserializeIpc p objectId exchange hcall =>
    by_cases heq : id = objectId
    · cases exchange with
      | raisedBefore => exact .inl rfl
      | replied | raisedAfter =>
        refine .inr (.inl ?_)
        simp [ShmEvent.fetches, Exchange.takesEffect, heq]
    · cases exchange with
      | raisedBefore => exact .inl rfl
      | replied | raisedAfter => exact .inl (Function.update_of_ne heq ..)

/-- The ids drawn so far are distinct: those returned, and the one each process has reserved. -/
structure Fresh (s : ShmSystem α) (returned : List Bytes) : Prop where
  reserved : ∀ p id, (s.worker p).nextId = some id → ∃ n ≤ s.redis.counter, decimal n = id
  drawn : ∀ id ∈ returned, ∃ n ≤ s.redis.counter, decimal n = id
  distinct : ∀ p q id, (s.worker p).nextId = some id → (s.worker q).nextId = some id → p = q
  unreturned : ∀ p id, (s.worker p).nextId = some id → id ∉ returned
  nodup : returned.Nodup

theorem Fresh.initial (redis : Redis) : Fresh (initial redis : ShmSystem α) [] where
  reserved := by
    intro p id h
    cases h
  drawn := fun id h => absurd h List.not_mem_nil
  distinct := by
    intro p q id h
    cases h
  unreturned := fun p id h => List.not_mem_nil
  nodup := List.nodup_nil

theorem Fresh.keeps {returned : List Bytes} (h : Fresh s returned) (hkeeps : KeepsIds s s') :
    Fresh s' returned where
  reserved := by
    intro p id hid
    rw [hkeeps.nextId] at hid
    obtain ⟨n, hn, hdec⟩ := h.reserved p id hid
    exact ⟨n, hn.trans hkeeps.counter, hdec⟩
  drawn := by
    intro id hid
    obtain ⟨n, hn, hdec⟩ := h.drawn id hid
    exact ⟨n, hn.trans hkeeps.counter, hdec⟩
  distinct := by
    intro p q id hp hq
    rw [hkeeps.nextId] at hp hq
    exact h.distinct p q id hp hq
  unreturned := by
    intro p id hid
    rw [hkeeps.nextId] at hid
    exact h.unreturned p id hid
  nodup := h.nodup

theorem decimal_succ_ne {k n : ℕ} (h : n ≤ k) : decimal n ≠ decimal (k + 1) := by
  intro heq
  have := decimal_injective heq
  omega

theorem Fresh.draws {returned : List Bytes} {p : ℕ} (h : Fresh s returned)
    (hdraws : Draws p s s') (ret : Option Bytes)
    (hret : ∀ id, ret = some id → (s.worker p).nextId = some id) :
    Fresh s' (returned ++ ret.toList) := by
  have hle : s.redis.counter ≤ s'.redis.counter := hdraws.counter ▸ Nat.le_succ _
  have hdrawn : ∀ id ∈ returned ++ ret.toList, ∃ n ≤ s.redis.counter, decimal n = id := by
    intro id hid
    cases List.mem_append.mp hid with
    | inl hid => exact h.drawn id hid
    | inr hid => exact h.reserved p id (hret id (Option.mem_toList.mp hid))
  have hother : ∀ q id, q ≠ p → (s'.worker q).nextId = some id → (s.worker q).nextId = some id := by
    intro q id hq hid
    rwa [hdraws.nextId, if_neg hq] at hid
  have hself : ∀ id, (s'.worker p).nextId = some id → decimal (s.redis.counter + 1) = id := by
    intro id hid
    rw [hdraws.nextId, if_pos rfl] at hid
    exact Option.some.inj hid
  have hnew : ∀ q id, q ≠ p → (s'.worker q).nextId = some id →
      decimal (s.redis.counter + 1) ≠ id := by
    intro q id hq hid
    obtain ⟨n, hn, hdec⟩ := h.reserved q id (hother q id hq hid)
    rw [← hdec]
    exact (decimal_succ_ne hn).symm
  constructor
  · intro q id hid
    by_cases hq : q = p
    · rw [hq] at hid
      exact ⟨_, hdraws.counter.ge, hself id hid⟩
    · obtain ⟨n, hn, hdec⟩ := h.reserved q id (hother q id hq hid)
      exact ⟨n, hn.trans hle, hdec⟩
  · intro id hid
    obtain ⟨n, hn, hdec⟩ := hdrawn id hid
    exact ⟨n, hn.trans hle, hdec⟩
  · intro q q' id hq hq'
    by_cases hqp : q = p
    · by_cases hqp' : q' = p
      · rw [hqp, hqp']
      · rw [hqp] at hq
        exact absurd (hself id hq) (hnew q' id hqp' hq')
    · by_cases hqp' : q' = p
      · rw [hqp'] at hq'
        exact absurd (hself id hq') (hnew q id hqp hq)
      · exact h.distinct q q' id (hother q id hqp hq) (hother q' id hqp' hq')
  · intro q id hid hmem
    by_cases hq : q = p
    · rw [hq] at hid
      obtain ⟨n, hn, hdec⟩ := hdrawn id hmem
      exact decimal_succ_ne hn (hdec.trans (hself id hid).symm)
    · have hold := hother q id hq hid
      cases List.mem_append.mp hmem with
      | inl hmem => exact h.unreturned q id hold hmem
      | inr hmem => exact hq (h.distinct q p id hold (hret id (Option.mem_toList.mp hmem)))
  · rw [List.nodup_append]
    refine ⟨h.nodup, by cases ret <;> simp, ?_⟩
    intro id hid id' hid' heq
    rw [← heq] at hid'
    exact h.unreturned p id (hret id (Option.mem_toList.mp hid')) hid

theorem Fresh.step {returned : List Bytes} (h : Fresh s returned) (hs : Step ipc s event s') :
    Fresh s' (returned ++ event.returned.toList) := by
  cases hs.ids with
  | inl hkeeps =>
    rw [hkeeps.2, Option.toList_none, List.append_nil]
    exact h.keeps hkeeps.1
  | inr hdraws =>
    obtain ⟨p, hdraws, hret⟩ := hdraws
    exact h.draws hdraws _ hret

theorem Fresh.runs {returned : List Bytes} {events : List (ShmEvent α)} (h : Fresh s returned)
    (hruns : Runs ipc s events s') :
    Fresh s' (returned ++ events.filterMap ShmEvent.returned) := by
  induction hruns generalizing returned with
  | nil => rwa [List.filterMap_nil, List.append_nil]
  | @cons s s1 s2 event events hs hruns ih =>
    have hrest := ih (h.step hs)
    rw [List.append_assoc] at hrest
    cases hret : event.returned with
    | none =>
      rw [hret, Option.toList_none, List.nil_append] at hrest
      rwa [List.filterMap_cons_none hret]
    | some id =>
      rw [hret, Option.toList_some, List.singleton_append] at hrest
      rwa [List.filterMap_cons_some hret]

theorem Fresh.object {returned : List Bytes} {events : List (ShmEvent α)} {id : Bytes}
    (h : Fresh s returned) (hid : id ∈ returned) (hruns : Runs ipc s events s')
    (hkept : ∀ event ∈ events, event.fetches id = false) :
    s'.redis.object id = s.redis.object id := by
  induction hruns generalizing returned with
  | nil => rfl
  | @cons s s1 s2 event events hs hruns ih =>
    have hrest := ih (h.step hs) (List.mem_append_left _ hid)
      fun event hevent => hkept event (List.mem_cons_of_mem _ hevent)
    rw [hrest]
    have hfetch := hkept event List.mem_cons_self
    cases hs.object id with
    | inl hsame => exact hsame
    | inr hor =>
      cases hor with
      | inl hyes => exact Bool.noConfusion (hfetch.symm.trans hyes)
      | inr howner =>
        obtain ⟨p, hp⟩ := howner
        exact absurd hid (h.unreturned p id hp)

theorem stored_object {p : ℕ} {data : α} {id : Bytes}
    (hs : Step ipc s (.stored p data id .replied) s') :
    ∃ stored, ipc.serializeIpc data = some stored ∧ s'.redis.object id = some stored := by
  cases hs with
  | serializeIpc p data currentId stored exchange hcall hid hdata =>
    exact ⟨stored, hdata, Function.update_self ..⟩

theorem fetched_result {p : ℕ} {id : Bytes} {result : Option α}
    (hs : Step ipc s (.fetched p id .replied result) s') :
    result = ipc.deserializeIpc (s.redis.object id) := by
  cases hs with
  | deserializeIpc => rfl

theorem handed_over (ipc : SuperIpc α)
    (hipc : ∀ data stored, ipc.serializeIpc data = some stored →
      ipc.deserializeIpc (some stored) = some data) (redis : Redis) :
    (∀ events s, Runs ipc (initial redis) events s →
      (events.filterMap ShmEvent.returned).Nodup) ∧
    ∀ before s₁ p data id s₂ after s₃, Runs ipc (initial redis) before s₁ →
      Step ipc s₁ (.stored p data id .replied) s₂ → Runs ipc s₂ after s₃ →
      (∀ event ∈ after, event.fetches id = false) →
        (∃ stored, ipc.serializeIpc data = some stored ∧ s₃.redis.object id = some stored) ∧
        ∀ q result s₄, Step ipc s₃ (.fetched q id .replied result) s₄ → result = some data := by
  constructor
  · intro events s hruns
    exact ((Fresh.initial redis).runs hruns).nodup
  · intro before s₁ p data id s₂ after s₃ hbefore hstored hafter hkept
    have hfresh := ((Fresh.initial redis).runs hbefore).step hstored
    have hid : id ∈ before.filterMap ShmEvent.returned ++
        (ShmEvent.stored p data id .replied).returned.toList :=
      List.mem_append_right _ List.mem_cons_self
    obtain ⟨stored, hdata, hobject⟩ := stored_object hstored
    have hsame := hfresh.object hid hafter hkept
    rw [hobject] at hsame
    refine ⟨⟨stored, hdata, hsame⟩, ?_⟩
    intro q result s₄ hfetched
    rw [fetched_result hfetched, hsame]
    exact hipc data stored hdata

def echoIpc : SuperIpc Bytes := ⟨some, id⟩

theorem handed_over_echo : ∃ s₁ s₂ s₃ s₄ result,
    Runs echoIpc (initial ⟨6, fun _ => none⟩) [.silent, .silent] s₁ ∧
      Step echoIpc s₁ (.stored 0 [1] (decimal 7) .replied) s₂ ∧ Runs echoIpc s₂ [.silent] s₃ ∧
      Step echoIpc s₃ (.fetched 1 (decimal 7) .replied result) s₄ ∧ result = some [1] := by
  let s₀ : ShmSystem Bytes := initial ⟨6, fun _ => none⟩
  let s₁ := (s₀.setWorker 0 none (.serializing [1])).prepare 0 [1] .replied
  have hbefore : Runs echoIpc s₀ [.silent, .silent] s₁ :=
    .cons (.callSerialize 0 [1] rfl) (.cons (.prepareNextId 0 [1] .replied rfl rfl) (.nil _))
  let s₂ := s₁.executeSet 0 (decimal 7) [1] .replied
  let s₃ := s₂.setWorker 1 none (.deserializing (decimal 7))
  have hstored : Step echoIpc s₁ (.stored 0 [1] (decimal 7) .replied) s₂ :=
    .serializeIpc 0 [1] (decimal 7) [1] .replied rfl rfl rfl
  have hafter : Runs echoIpc s₂ [.silent] s₃ := .cons (.callDeserialize 1 (decimal 7) rfl) (.nil _)
  have hfetched : Step echoIpc s₃ (.fetched 1 (decimal 7) .replied _) _ :=
    .deserializeIpc 1 (decimal 7) .replied rfl
  have hover := (handed_over echoIpc (fun _ _ h => h.symm) ⟨6, fun _ => none⟩).2 _ _ _ _ _ _ _ _
    hbefore hstored hafter (by simp [ShmEvent.fetches])
  exact ⟨_, _, _, _, _, hbefore, hstored, hafter, hfetched, hover.2 _ _ _ hfetched⟩

end ShmSystem

end Mosec
