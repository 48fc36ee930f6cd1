import Mathlib.Algebra.BigOperators.Group.List.Basic
import Mosec.Wire

namespace Mosec

/-- A `str`: its code points, of which some may be lone surrogates. -/
abbrev PyStr := List (Fin 0x110000)

def Surrogate (c : Fin 0x110000) : Prop := 0xD800 ≤ c.val ∧ c.val ≤ 0xDFFF

instance (c : Fin 0x110000) : Decidable (Surrogate c) :=
  inferInstanceAs (Decidable (0xD800 ≤ c.val ∧ c.val ≤ 0xDFFF))

namespace PyStr

theorem toNat_lt (c : Char) : c.toNat < 0x110000 := by
  have hvalid : c.toNat.isValidChar := c.valid
  unfold Nat.isValidChar at hvalid
  omega

def ofString (s : String) : PyStr := s.toList.map fun c => ⟨c.toNat, toNat_lt c⟩

def encodePoint (c : Fin 0x110000) : Option Bytes :=
  if Surrogate c then none else some (String.utf8EncodeChar (Char.ofNat c))

def encode : PyStr → Option Bytes
  | [] => some []
  | c :: s => do
    let first ← encodePoint c
    let rest ← encode s
    return first ++ rest

def joinLines (s : PyStr) : PyStr := s.flatMap fun c => if c = 10 then ofString " - " else [c]

def utf8Length (s : PyStr) : ℕ := (s.map fun c => (Char.ofNat c).utf8Size).sum

theorem ofString_encodable (s : String) : ∀ c ∈ ofString s, ¬ Surrogate c := by
  intro c hc hsur
  obtain ⟨d, -, rfl⟩ := List.mem_map.mp hc
  have hvalid : d.toNat.isValidChar := d.valid
  unfold Nat.isValidChar at hvalid
  have hlow : 0xD800 ≤ d.toNat := hsur.1
  have hhigh : d.toNat ≤ 0xDFFF := hsur.2
  omega

theorem encode_isSome (s : PyStr) : (encode s).isSome ↔ ∀ c ∈ s, ¬ Surrogate c := by
  induction s with
  | nil => exact iff_of_true rfl fun c h => absurd h List.not_mem_nil
  | cons c s ih =>
    rw [List.forall_mem_cons, ← ih, encode, encodePoint]
    by_cases hc : Surrogate c
    · rw [if_pos hc]
      exact iff_of_false Bool.noConfusion fun h => h.1 hc
    · rw [if_neg hc]
      cases encode s with
      | none => exact iff_of_false Bool.noConfusion fun h => Bool.noConfusion h.2
      | some rest => exact iff_of_true rfl ⟨hc, rfl⟩

theorem encode_length {s : PyStr} {bytes : Bytes} (h : encode s = some bytes) :
    bytes.length = utf8Length s := by
  induction s generalizing bytes with
  | nil =>
    cases h
    rfl
  | cons c s ih =>
    unfold encode encodePoint at h
    split at h
    · cases h
    · simp only [Option.bind_eq_bind, Option.bind_some] at h
      obtain ⟨rest, hrest, heq⟩ := Option.bind_eq_some_iff.mp h
      cases heq
      rw [List.length_append, ih hrest, String.length_utf8EncodeChar]
      rfl

theorem surrogate_joinLines {s : PyStr} :
    (∀ c ∈ joinLines s, ¬ Surrogate c) ↔ ∀ c ∈ s, ¬ Surrogate c := by
  unfold joinLines
  simp only [List.mem_flatMap]
  constructor
  · intro h c hc
    by_cases hnew : c = 10
    · rw [hnew]
      decide
    · exact h c ⟨c, hc, by rw [if_neg hnew]; exact List.mem_singleton_self c⟩
  · rintro h c ⟨d, hd, hc⟩
    by_cases hnew : d = 10
    · rw [if_pos hnew] at hc
      exact ofString_encodable _ c hc
    · rw [if_neg hnew, List.mem_singleton] at hc
      rw [hc]
      exact h d hd

end PyStr

end Mosec
